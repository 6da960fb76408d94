import Descent.Rule.Parse

namespace Descent.Rule

/-- The report on a run with a result that is no value, or not one of all the text. -/
inductive Reported (text : List Char) : Step × Budget → ParseError → Prop
  | fault (f : Fault) (b : Budget) : Reported text (.error f, b) (.ofFault text f)
  | failure (f : Failure) (b : Budget) :
    Reported text (.ok (.failure f), b) (.ofFailure text (deeper f b.furthest))
  | stopped {m : Match} {b : Budget} {f : Failure} (hf : b.furthest = some f)
    (hm : m.rest.offset ≤ f.offset) : Reported text (.ok (.success m), b) (.ofFailure text f)
  | leftover (m : Match) (b : Budget) :
    Reported text (.ok (.success m), b) (.ofLeftover text m.rest.offset)

variable {s : Store} {r : Rule} {text : String} {l : Limits}

theorem reported_of_conclude {text : List Char} {x : Step × Budget} {e : ParseError}
    (h : conclude text x = .error e) : Reported text x e := by
  match x with
  | (.error f, b) =>
    obtain rfl := Except.error.inj h
    exact .fault f b
  | (.ok (.failure f), b) =>
    obtain rfl := Except.error.inj h
    exact .failure f b
  | (.ok (.success m), b) => cases h

theorem reported_of_complete {text : List Char} {m : Match} {b : Budget} {e : ParseError}
    (h : complete text m b.furthest = .error e) : Reported text (.ok (.success m), b) e := by
  unfold complete at h
  split at h
  · cases h
  · split at h
    · split at h <;> obtain rfl := Except.error.inj h
      · exact .stopped ‹_› ‹_›
      · exact .leftover m b
    · obtain rfl := Except.error.inj h
      exact .leftover m b

theorem conclude_ok {text : List Char} {x : Step × Budget} {m : Match} {g : Option Failure}
    (h : conclude text x = .ok (m, g)) : ∃ b, x = (.ok (.success m), b) ∧ g = b.furthest := by
  match x with
  | (.error f, b) => cases h
  | (.ok (.failure f), b) => cases h
  | (.ok (.success m'), b) =>
    obtain ⟨rfl, rfl⟩ := Prod.mk.inj (Except.ok.inj h)
    exact ⟨b, rfl, rfl⟩

theorem bind_ok {ε α β : Type} {x : Except ε α} {next : α → Except ε β} {b : β}
    (h : x >>= next = .ok b) : ∃ a, x = .ok a ∧ next a = .ok b := by
  cases x with
  | error e => cases h
  | ok a => exact ⟨a, rfl, h⟩

theorem bind_error {ε α β : Type} {x : Except ε α} {next : α → Except ε β} {e : ε}
    (h : x >>= next = .error e) : x = .error e ∨ ∃ a, x = .ok a ∧ next a = .error e := by
  cases x with
  | error e' =>
    obtain rfl := Except.error.inj h
    exact .inl rfl
  | ok a => exact .inr ⟨a, rfl, h⟩

theorem parseWith_ok {v : Value} {rest : String} (h : r.parseWith s text l = some (.ok (v, rest))) :
    ∃ m b, r.run s text.toList l = some (.ok (.success m), b) ∧ v = m.value ∧
      rest = m.rest.rest := by
  obtain ⟨x, hx, he⟩ := Option.map_eq_some_iff.1 h
  obtain ⟨⟨m, g⟩, hc, hnext⟩ := bind_ok he
  obtain ⟨b, rfl, rfl⟩ := conclude_ok hc
  obtain ⟨rfl, rfl⟩ := Prod.mk.inj (Except.ok.inj hnext)
  exact ⟨m, b, hx, rfl, rfl⟩

theorem parse_reported {e : ParseError}
    (h : r.parseWith s text l = some (.error e) ∨ r.parseAllWith s text l = some (.error e)) :
    ∃ x, r.run s text.toList l = some x ∧ Reported text.toList x e := by
  rcases h with h | h
  · obtain ⟨x, hx, he⟩ := Option.map_eq_some_iff.1 h
    refine ⟨x, hx, ?_⟩
    rcases bind_error he with hc | ⟨y, hc, hnext⟩
    · exact reported_of_conclude hc
    · cases hnext
  · obtain ⟨x, hx, he⟩ := Option.map_eq_some_iff.1 h
    refine ⟨x, hx, ?_⟩
    rcases bind_error he with hc | ⟨⟨m, g⟩, hc, hnext⟩
    · exact reported_of_conclude hc
    · obtain ⟨b, rfl, rfl⟩ := conclude_ok hc
      exact reported_of_complete hnext

theorem parse_fault {f : Fault} {b : Budget} (h : r.run s text.toList l = some (.error f, b)) :
    r.parseWith s text l = some (.error (.ofFault text.toList f)) ∧
    r.parseAllWith s text l = some (.error (.ofFault text.toList f)) := by
  constructor
  · rw [parseWith, h]
    rfl
  · rw [parseAllWith, h]
    rfl

theorem parse_failure {f : Failure} {b : Budget}
    (h : r.run s text.toList l = some (.ok (.failure f), b)) :
    r.parseWith s text l = some (.error (.ofFailure text.toList (deeper f b.furthest))) ∧
    r.parseAllWith s text l = some (.error (.ofFailure text.toList (deeper f b.furthest))) := by
  constructor
  · rw [parseWith, h]
    rfl
  · rw [parseAllWith, h]
    rfl

theorem parse_success {m : Match} {b : Budget}
    (h : r.run s text.toList l = some (.ok (.success m), b)) :
    r.parseWith s text l = some (.ok (m.value, m.rest.rest)) ∧
    r.parseAllWith s text l = some (complete text.toList m b.furthest) := by
  constructor
  · rw [parseWith, h]
    rfl
  · rw [parseAllWith, h]
    rfl

/-- Of the account, a parse tells the furthest failure alone. -/
theorem parse_congr {l' : Limits} {step : Step} {b b' : Budget}
    (h : r.run s text.toList l = some (step, b)) (h' : r.run s text.toList l' = some (step, b'))
    (hf : b'.furthest = b.furthest) :
    r.parseWith s text l' = r.parseWith s text l ∧
      r.parseAllWith s text l' = r.parseAllWith s text l := by
  have hc : conclude text.toList (step, b') = conclude text.toList (step, b) := by
    match step with
    | .ok (.success m) | .ok (.failure f) => simp only [conclude, hf]
    | .error f => rfl
  constructor
  · simp only [parseWith, h, h', Option.map_some, hc]
  · simp only [parseAllWith, h, h', Option.map_some, hc]

end Descent.Rule
