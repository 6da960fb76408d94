import Descent.Proofs.Reading
import Descent.Proofs.Unbounded

namespace Descent

namespace Rule

/-- Matches of the rule from `c` to `d`, each of them from where the one before ends, and behind
where it begins. -/
inductive Chain (s : Store) (r : Rule) : Cursor → List Match → Cursor → Prop
  | done (c : Cursor) : Chain s r c [] c
  | next {c d : Cursor} {m : Match} {ms : List Match} (h : r.Gives s c (.ok (.success m)))
    (hadvance : c.offset < m.rest.offset) (hrest : Chain s r m.rest ms d) : Chain s r c (m :: ms) d

/-- No match at `d` advances. -/
def Stops (s : Store) (r : Rule) (d : Cursor) : Prop :=
  ∀ m, r.Gives s d (.ok (.success m)) → m.rest.offset ≤ d.offset

/-- At `d` the rule fails, or it matches and does not advance. -/
def Halts (s : Store) (r : Rule) (d : Cursor) : Prop :=
  (∃ f, r.Gives s d (.ok (.failure f))) ∨
    ∃ m, r.Gives s d (.ok (.success m)) ∧ m.rest.offset ≤ d.offset

variable {s : Store} {r : Rule} {c d : Cursor} {m : Match} {ms : List Match} {step : Step}

theorem Halts.stops (h : r.Halts s d) : r.Stops s d := by
  intro m hm
  rcases h with ⟨f, hf⟩ | ⟨n, hn, hle⟩
  · cases hf.unique hm
  · cases hn.unique hm
    exact hle

theorem Halts.outcome (h : r.Halts s d) : ∃ o, r.Gives s d (.ok o) := by
  rcases h with ⟨f, hf⟩ | ⟨m, hm, _⟩
  · exact ⟨_, hf⟩
  · exact ⟨_, hm⟩

/-- Where the rule stops, it halts if it comes to anything but a fault. -/
theorem Stops.halts (h : r.Stops s d) {o : Outcome} (ho : r.Gives s d (.ok o)) : r.Halts s d := by
  cases o with
  | failure f => exact .inl ⟨f, ho⟩
  | success m => exact .inr ⟨m, ho, h m ho⟩

/-- There is at most one chain to where the rule stops. -/
theorem Chain.unique (h : Chain s r c ms d) (hd : r.Stops s d) {ms' : List Match} {d' : Cursor}
    (h' : Chain s r c ms' d') (hd' : r.Stops s d') : ms' = ms ∧ d' = d := by
  induction h generalizing ms' with
  | done c =>
    cases h' with
    | done => exact ⟨rfl, rfl⟩
    | next hm hadvance _ => exact absurd (hd _ hm) (Nat.not_le.2 hadvance)
  | next hm hadvance _ ih =>
    cases h' with
    | done => exact absurd (hd' _ hm) (Nat.not_le.2 hadvance)
    | next hm' _ hrest' =>
      cases hm.unique hm'
      obtain ⟨rfl, rfl⟩ := ih hd hrest'
      exact ⟨rfl, rfl⟩

/-- A chain advances unless it is empty. -/
theorem Chain.offset_lt (h : Chain s r c ms d) (hne : ms ≠ []) : c.offset < d.offset := by
  induction h with
  | done => exact absurd rfl hne
  | @next c d m ms _ hadvance hrest ih =>
    cases ms with
    | nil =>
      cases hrest
      exact hadvance
    | cons => exact Nat.lt_trans hadvance (ih (List.cons_ne_nil _ _))

section

variable (hs : s.Composed) (hr : r.Composed)
include hs hr

/-- There is a chain to where the rule stops, as the text is not endless. -/
theorem exists_chain (c : Cursor) : ∃ ms d, Chain s r c ms d ∧ r.Stops s d := by
  by_cases hstop : r.Stops s c
  · exact ⟨[], c, .done c, hstop⟩
  · simp only [Stops, not_forall, Nat.not_le] at hstop
    obtain ⟨m, hm, hadvance⟩ := hstop
    have hshorter := (hr.gives_reaches hs hm).length_lt hadvance
    obtain ⟨ms, d, hrest, hd⟩ := exists_chain m.rest
    exact ⟨m :: ms, d, .next hm hadvance hrest, hd⟩
termination_by c.after.length

/-- Where the rule stops, a repetition ends whatever the outcome. -/
theorem Stops.comes_last (h : r.Stops s c) {start : Cursor} {values : List Value}
    {next : Outcome → Plan}
    (hnext : ∀ o, r.Gives s c (.ok o) → next o = Plan.gather values start c) :
    (Plan.apply r c next).Comes s step ↔
      (r.Halts s c ∧ step = .ok (.success (.spanning (.list values.reverse) start c))) ∨
      ∃ f, r.Gives s c (.error f) ∧ step = .error f := by
  simp only [Plan.comes_apply, ← hr.gives_iff hs]
  constructor
  · rintro (hfault | ⟨o, ho, hstep⟩)
    · exact .inr hfault
    · rw [hnext o ho, Plan.comes_gather] at hstep
      exact .inl ⟨h.halts ho, hstep⟩
  · rintro (⟨hhalts, rfl⟩ | hfault)
    · obtain ⟨o, ho⟩ := hhalts.outcome
      refine .inr ⟨o, ho, ?_⟩
      rw [hnext o ho, Plan.comes_gather]
    · exact .inl hfault

/-- With turns enough a repetition goes along the chain, and ends where the rule halts or faults. -/
theorem Chain.repeated_comes (h : Chain s r c ms d) (hd : r.Stops s d) (start : Cursor)
    (values : List Value) {turns : Nat} (hturns : c.after.length ≤ turns) :
    (Plan.repeated r start turns values c).Comes s step ↔
      (r.Halts s d ∧ step =
        .ok (.success (.spanning
          (.list (values.reverse ++ Value.kept (ms.map Match.value))) start d))) ∨
      ∃ f, r.Gives s d (.error f) ∧ step = .error f := by
  induction h generalizing values turns with
  | done c =>
    rw [List.map_nil, Value.kept_nil, List.append_nil]
    cases turns with
    | zero => exact hd.comes_last hs hr fun _ _ => rfl
    | succ turns =>
      refine hd.comes_last hs hr fun o ho => ?_
      cases o with
      | failure => rfl
      | success m => exact if_pos (hd m ho)
  | @next c d m ms hm hadvance _ ih =>
    have hshorter := (hr.gives_reaches hs hm).length_lt hadvance
    obtain ⟨turns, rfl⟩ := Nat.exists_eq_succ_of_ne_zero (show turns ≠ 0 by omega)
    have hturns : m.rest.after.length ≤ turns := by omega
    have hrest := ih hd (m.value.collect values) hturns
    rw [Value.reverse_collect] at hrest
    rw [Plan.repeated, ((hr.gives_iff hs).1 hm).apply]
    dsimp only
    rw [if_neg (Nat.not_le.2 hadvance)]
    exact hrest

theorem Chain.gives_repeated (h : Chain s r c ms d) (hd : r.Stops s d) :
    (repeated r).Gives s c step ↔
    (r.Halts s d ∧ step =
      .ok (.success (.spanning (.list (Value.kept (ms.map Match.value))) c d))) ∨
    ∃ f, r.Gives s d (.error f) ∧ step = .error f := by
  rw [hr.repeated.gives_iff hs, comes_iff_plan, plan]
  exact h.repeated_comes hs hr hd c [] (Nat.le_refl _)

/-- Where the rule halts, a repetition matches nothing. -/
theorem Halts.gives_repeated (h : r.Halts s d) :
    (repeated r).Gives s d (.ok (.success (.spanning (.list []) d d))) :=
  ((Chain.done d).gives_repeated hs hr h.stops).2 (.inl ⟨h, rfl⟩)

/-- A repetition that is repeated goes along the whole chain at once, and then matches nothing. -/
theorem Chain.gives_repeated_repeated (h : Chain s r c ms d) (hd : r.Stops s d) :
    (repeated (repeated r)).Gives s c step ↔
      (r.Halts s d ∧ step = .ok (.success (.spanning
        (.list (if ms.isEmpty then [] else [.list (Value.kept (ms.map Match.value))])) c d))) ∨
      ∃ f, r.Gives s d (.error f) ∧ step = .error f := by
  have hfault (f : Fault) : (repeated r).Gives s c (.error f) ↔ r.Gives s d (.error f) := by
    rw [h.gives_repeated hs hr hd]
    simp
  by_cases hhalts : r.Halts s d
  · have hone := (h.gives_repeated hs hr hd).2 (.inl ⟨hhalts, rfl⟩)
    have hmore := hhalts.gives_repeated hs hr
    have hend : (repeated r).Halts s d := .inr ⟨_, hmore, Nat.le_refl _⟩
    have hnever (f : Fault) : ¬ r.Gives s d (.error f) := by
      obtain ⟨o, ho⟩ := hhalts.outcome
      intro hf
      cases ho.unique hf
    have hnever' (f : Fault) : ¬ (repeated r).Gives s d (.error f) :=
      fun hf => by cases hmore.unique hf
    cases ms with
    | nil =>
      cases h
      rw [(Chain.done c).gives_repeated hs (.repeated hr) hend.stops]
      simp [hhalts, hend, hnever, hnever', Value.kept]
    | cons m ms =>
      have hadvance := h.offset_lt (List.cons_ne_nil m ms)
      have hchain :
          Chain s (repeated r) c
            [.spanning (.list (Value.kept ((m :: ms).map Match.value))) c d] d :=
        .next hone hadvance (.done d)
      rw [hchain.gives_repeated hs (.repeated hr) hend.stops]
      simp [hhalts, hend, hnever, hnever', Value.kept, Match.spanning, Value.isUnit]
  · -- The repetition comes to no outcome, and so does what repeats it.
    have hnone (o : Outcome) : ¬ (repeated r).Gives s c (.ok o) := by
      rw [h.gives_repeated hs hr hd]
      simp [hhalts]
    have hstops : (repeated r).Stops s c := fun m hm => absurd hm (hnone _)
    have hopen : ¬ (repeated r).Halts s c := by simp [Halts, hnone]
    rw [(Chain.done c).gives_repeated hs (.repeated hr) hstops]
    simp [hhalts, hopen, hfault]

/-- A rule that may be left out matches where it fails, but does not advance there. -/
theorem Chain.gives_repeated_optional (h : Chain s r c ms d) (hd : r.Stops s d) :
    (repeated (optional r)).Gives s c step ↔ (repeated r).Gives s c step := by
  have hchain : Chain s (optional r) c ms d := by
    clear hd
    induction h with
    | done c => exact .done c
    | next hm hadvance _ ih => exact .next ((gives_optional_success hs hr).2 (.inr hm)) hadvance ih
  have hstops : (optional r).Stops s d := by
    intro m hm
    rcases (gives_optional_success hs hr).1 hm with ⟨_, rfl⟩ | hm
    · exact Nat.le_refl _
    · exact hd m hm
  have hhalts : (optional r).Halts s d ↔ r.Halts s d := by
    constructor
    · rintro (⟨f, hf⟩ | ⟨m, hm, hle⟩)
      · exact absurd hf (optional_never_fails hs hr f)
      · rcases (gives_optional_success hs hr).1 hm with ⟨hf, _⟩ | hm
        · exact .inl hf
        · exact .inr ⟨m, hm, hle⟩
    · rintro (hf | ⟨m, hm, hle⟩)
      · exact .inr ⟨_, (gives_optional_success hs hr).2 (.inl ⟨hf, rfl⟩), Nat.le_refl _⟩
      · exact .inr ⟨m, (gives_optional_success hs hr).2 (.inr hm), hle⟩
  have hfault (f : Fault) : (optional r).Gives s d (.error f) ↔ r.Gives s d (.error f) := by
    rw [gives_optional hs hr]
    simp
  rw [hchain.gives_repeated hs (.optional hr) hstops, h.gives_repeated hs hr hd, hhalts]
  simp only [hfault]

/-- There is one chain of matches to where the rule stops. Without limits a repetition never fails:
it yields the values of the chain that are worth keeping and matches its text if the rule halts
there, raises a fault just if the rule raises it there, and does not end if the rule does not. Where
the rule halts, a repetition matches nothing. So to repeat a repetition is to match the same text,
and a rule that may be left out is repeated as the rule itself. -/
theorem repeated_eq_chain (c : Cursor) : ∃ ms d, Chain s r c ms d ∧ r.Stops s d ∧
    (∀ ms' d', Chain s r c ms' d' → r.Stops s d' → ms' = ms ∧ d' = d) ∧
    (∀ room b b' f, b.limits = .unbounded →
      (repeated r).apply s room c b ≠ some (.ok (.failure f), b')) ∧
    (∀ m, (repeated r).Gives s c (.ok (.success m)) ↔
      r.Halts s d ∧ m = .spanning (.list (Value.kept (ms.map Match.value))) c d) ∧
    (∀ f, (repeated r).Gives s c (.error f) ↔ r.Gives s d (.error f)) ∧
    (r.Halts s d → (repeated r).Gives s d (.ok (.success (.spanning (.list []) d d)))) ∧
    (∀ step, (repeated (repeated r)).Gives s c step ↔
      (r.Halts s d ∧ step = .ok (.success (.spanning
        (.list (if ms.isEmpty then [] else [.list (Value.kept (ms.map Match.value))])) c d))) ∨
      ∃ f, r.Gives s d (.error f) ∧ step = .error f) ∧
    ∀ step, (repeated (optional r)).Gives s c step ↔ (repeated r).Gives s c step := by
  obtain ⟨ms, d, hchain, hd⟩ := exists_chain hs hr c
  have hrepeated (step : Step) : (repeated r).Gives s c step ↔ _ := hchain.gives_repeated hs hr hd
  refine ⟨ms, d, hchain, hd, fun _ _ h hd' => hchain.unique hd h hd', ?_, ?_, ?_, ?_, ?_, ?_⟩
  · intro room b b' f hb hfail
    have hgives := (hr.repeated.gives_iff hs).2 (hr.repeated.comes_of_apply hs hb hfail)
    simp [hrepeated] at hgives
  · simp [hrepeated]
  · simp [hrepeated]
  · exact fun h => h.gives_repeated hs hr
  · exact fun _ => hchain.gives_repeated_repeated hs hr hd
  · exact fun _ => hchain.gives_repeated_optional hs hr hd

end

/-- Blanks, which are not kept, letters, and where neither is found a match of nothing. -/
def letters : Rule := .choice [.discard (literal " "), literal "a", literal ""]

theorem repeated_eq_chain_letters : Store.empty.Composed ∧ letters.Composed ∧
    ∃ ms d, Chain .empty letters (.start "a ab".toList) ms d ∧ letters.Halts .empty d ∧
      d.offset = 3 ∧ Value.kept (ms.map Match.value) = [.text "a", .text "a"] ∧
      (repeated letters).Gives .empty d (.ok (.success (.spanning (.list []) d d))) := by
  have hs : Store.Composed .empty := Store.composed_empty
  have hr : letters.Composed := by decide
  obtain ⟨ms, d, hchain, _, _, _, hsuccess, _, hend, _⟩ :=
    repeated_eq_chain hs hr (.start "a ab".toList)
  have hgives : (repeated letters).Gives .empty (.start "a ab".toList) (.ok (.success
      (.spanning (.list [.text "a", .text "a"]) (.start "a ab".toList)
        ((Cursor.start "a ab".toList).past "a a".toList "b".toList)))) :=
    (hr.repeated.gives_iff hs).2 (comes_of_trace 4 rfl)
  obtain ⟨hhalts, heq⟩ := (hsuccess _).1 hgives
  have hvalue := congrArg Match.value heq
  have hrest := congrArg Match.rest heq
  refine ⟨hs, hr, ms, d, hchain, hhalts, ?_, (Value.list.inj hvalue).symm, hend hhalts⟩
  exact (congrArg Cursor.offset hrest).symm

end Rule

end Descent
