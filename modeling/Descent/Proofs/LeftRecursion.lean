import Descent.Proofs.Limits

namespace Descent

theorem Plan.trace_opened {apply : Rule → Cursor → Trace} {q : Rule} {d : Cursor} {P : Prop}
    (h : ∀ r c, (apply r c).step.isSome → .opened q d ∈ (apply r c).events → P) {p : Plan}
    (hs : (p.trace apply).step.isSome) (hm : .opened q d ∈ (p.trace apply).events) : P := by
  induction p with
  | done | observe => cases hm
  | apply r c next ih =>
    rw [Plan.trace] at hs hm
    obtain ⟨step, hstep⟩ := Option.isSome_iff_exists.1 hs
    rcases Trace.andThen_cases hstep with ⟨f, ht, _, hsame⟩ | ⟨o, ht, hnext⟩
    · rw [hsame] at hm
      exact h r c (by rw [ht]; rfl) hm
    · rw [Trace.andThen_ok ht] at hm
      rcases List.mem_append.1 hm with hm | hm
      · exact h r c (by rw [ht]; rfl) hm
      · exact ih o (by rw [hnext]; rfl) hm

namespace Rule

section

variable (s : Store) (r : Rule) (c : Cursor)

/-- Evaluated at `c` without limits, the rule comes to apply `q` at `d`. -/
def Applies (q : Rule) (d : Cursor) : Prop := ∃ room, .opened q d ∈ (r.trace s room c).events

/-- Evaluated at `c` without limits, the rule is applied there once more before it is done. -/
def Recurs : Prop := ∃ room, .opened r c ∈ (r.trace s room c).events.tail

end

variable {s : Store} {r q : Rule} {c d : Cursor}

theorem applies_self (s : Store) (r : Rule) (c : Cursor) : r.Applies s c r c :=
  ⟨1, List.mem_cons_self⟩

/-- What is applied on the way of an evaluation that is over is over in less room. -/
theorem trace_opened_tail {room : Nat} (hs : (r.trace s (room+1) c).step.isSome)
    (hm : .opened q d ∈ (r.trace s (room+1) c).events.tail) : (q.trace s room d).step.isSome := by
  induction room generalizing r c with
  | zero =>
    have hplan : .opened q d ∈ ((r.plan s c).trace (Rule.trace s 0)).events := by
      simpa [trace, Trace.wrap] using hm
    exact Plan.trace_opened (fun _ _ _ h => absurd h List.not_mem_nil) hs hplan
  | succ room ih =>
    have hplan : .opened q d ∈ ((r.plan s c).trace (Rule.trace s (room+1))).events := by
      rw [trace, Trace.wrap, List.tail_cons, List.mem_append] at hm
      refine hm.resolve_right ?_
      simp
    refine Plan.trace_opened (fun p e hended hopened => ?_) hs hplan
    rcases List.mem_cons.1 hopened with heq | hopened
    · cases heq
      exact hended
    · exact trace_isSome_mono s (Nat.le_succ room) (ih hended hopened)

theorem trace_opened {room : Nat} (hs : (r.trace s room c).step.isSome)
    (hm : .opened q d ∈ (r.trace s room c).events) : (q.trace s room d).step.isSome := by
  cases room with
  | zero => cases hs
  | succ room =>
    rcases List.mem_cons.1 hm with heq | hm
    · cases heq
      exact hs
    · exact trace_isSome_mono s (Nat.le_succ room) (trace_opened_tail hs hm)

/-- An evaluation that is over has in it whatever happens in any room. -/
theorem events_prefix_of_ended {room : Nat} (hs : (r.trace s room c).step.isSome) (room' : Nat) :
    (r.trace s room' c).events <+: (r.trace s room c).events := by
  obtain ⟨step, hstep⟩ := Option.isSome_iff_exists.1 hs
  have hgrows := (trace_grows s (Nat.le_max_right room room') r c).1
  rwa [(trace_grows s (Nat.le_max_left room room') r c).2 step hstep] at hgrows

/-- In no room: the application inside would be over in less. -/
theorem Recurs.not_ended (h : r.Recurs s c) (room : Nat) : ¬ (r.trace s room c).step.isSome := by
  obtain ⟨room', hm⟩ := h
  induction room with
  | zero => exact Bool.false_ne_true
  | succ room ih =>
    intro hs
    have htail := (events_prefix_of_ended hs room').drop 1
    simp only [List.drop_one] at htail
    exact ih (trace_opened_tail hs (htail.mem hm))

theorem Applies.not_ended (h : r.Applies s c q d) (hq : q.Recurs s d) (room : Nat) :
    (r.trace s room c).step = none := by
  obtain ⟨room', hm⟩ := h
  rw [← Option.not_isSome_iff_eq_none]
  intro hs
  exact hq.not_ended room (trace_opened hs ((events_prefix_of_ended hs room').mem hm))

/-- If a rule comes to apply some rule, itself perhaps, that is applied once more where it is before
it is done, then it ends in no room without limits; within limits it ends on every budget, and with
nothing but the fault of one. -/
theorem recursion_refused (hs : s.Composed) (hr : r.Composed) (h : r.Applies s c q d)
    (hq : q.Recurs s d) : (∀ room b, b.limits = .unbounded → r.apply s room c b = none) ∧
    (∀ b, b.limits ≠ .unbounded →
      (∃ room step b', r.apply s room c b = some (step, b')) ∧
      ∀ room step b', r.apply s room c b = some (step, b') → step.Refused) ∧
    ∀ text : String, c = .start text.toList → ∀ l ≠ .unbounded,
      ∃ f : Fault, (f.kind = .depthLimit ∨ f.kind = .stepLimit) ∧
        r.parseWith s text l = some (.error (.ofFault text.toList f)) ∧
        r.parseAllWith s text l = some (.error (.ofFault text.toList f)) := by
  have hrefused (room : Nat) (b : Budget) (step : Step) (b' : Budget)
      (happly : r.apply s room c b = some (step, b')) : step.Refused := by
    by_contra hn
    have hstep := (hr.apply_not_refused hs happly hn).1
    rw [h.not_ended hq room] at hstep
    cases hstep
  refine ⟨?_, ?_, ?_⟩
  · intro room b hb
    rw [hr.apply_eq_settle hs, Trace.settle_unbounded _ hb, h.not_ended hq room]
    rfl
  · intro b hb
    exact ⟨exists_apply s r c hb, fun room step b' => hrefused room b step b'⟩
  · rintro text rfl l hl
    obtain ⟨⟨step, b⟩, hrun⟩ := Option.isSome_iff_exists.1 (run_isSome s r text.toList hl)
    obtain ⟨f, rfl, hf⟩ := hrefused _ _ step b hrun
    obtain ⟨hparse, hparseAll⟩ := parse_fault hrun
    exact ⟨f, hf, hparse, hparseAll⟩

/-- A rule that refers to itself behind two rules that consume nothing, with an alternative that
would match, and a name that is bound to a reference to itself. -/
theorem recursion_refused_hidden :
    (∃ f : Fault, (f.kind = .depthLimit ∨ f.kind = .stepLimit) ∧
      parseWith
        ⟨[some (.choice [.sequence [.repeated (.literal "a"), .optional (.literal "b"), .handle 0],
          .literal "c"])], []⟩ (.recursive 0) "c" .standard =
    some (.error (.ofFault "c".toList f)) ∧
      parseAllWith
        ⟨[some (.choice [.sequence [.repeated (.literal "a"), .optional (.literal "b"), .handle 0],
          .literal "c"])], []⟩ (.recursive 0) "c" .standard =
    some (.error (.ofFault "c".toList f))) ∧
    ∃ f : Fault, (f.kind = .depthLimit ∨ f.kind = .stepLimit) ∧
      parseWith ⟨[], [.ofList [("a", .reference 0 "a")]]⟩ (.reference 0 "a") "c" ⟨none, some 9⟩ =
        some (.error (.ofFault "c".toList f)) ∧
      parseAllWith ⟨[], [.ofList [("a", .reference 0 "a")]]⟩ (.reference 0 "a") "c" ⟨none, some 9⟩ =
        some (.error (.ofFault "c".toList f)) := by
  constructor
  · refine (recursion_refused (c := .start "c".toList) (q := .handle 0) (d := .start "c".toList)
      (by decide) (by decide) ⟨5, ?_⟩ ⟨5, ?_⟩).2.2 "c" rfl .standard (by decide)
    · exact List.mem_of_getElem? (show _[11]? = _ from rfl)
    · exact List.mem_of_getElem? (show _[10]? = _ from rfl)
  · refine (recursion_refused (c := .start "c".toList) (by decide) (by decide) (applies_self _ _ _)
      ⟨2, ?_⟩).2.2 "c" rfl ⟨none, some 9⟩ (by decide)
    exact List.mem_of_getElem? (show _[0]? = _ from rfl)

end Rule

end Descent
