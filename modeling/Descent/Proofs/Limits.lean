import Descent.Proofs.History
import Descent.Proofs.Reports
import Descent.Proofs.Room

namespace Descent

namespace Limits

variable {l l' : Limits}

theorem Admits.mono {ordinal depth m d : Nat} (h : l.Admits ordinal depth) (hm : m ≤ ordinal)
    (hd : d ≤ depth) : l.Admits m d where
  steps n hn := Nat.le_trans hm (h.steps n hn)
  depth n hn := Nat.le_trans hd (h.depth n hn)

/-- Whatever `l'` bounds, `l` bounds at least as tightly. -/
structure Loosens (l' l : Limits) : Prop where
  steps : ∀ n, l'.maxSteps = some n → ∃ m ≤ n, l.maxSteps = some m
  depth : ∀ n, l'.maxDepth = some n → ∃ m ≤ n, l.maxDepth = some m

theorem Loosens.admits (h : l'.Loosens l) {ordinal depth : Nat} (ha : l.Admits ordinal depth) :
    l'.Admits ordinal depth := by
  constructor
  · intro n hn
    obtain ⟨m, hm, hl⟩ := h.steps n hn
    exact Nat.le_trans (ha.steps m hl) hm
  · intro n hn
    obtain ⟨m, hm, hl⟩ := h.depth n hn
    exact Nat.le_trans (ha.depth m hl) hm

end Limits

namespace Rule

section

variable (s : Store) (r : Rule) (text : List Char)

/-- The applications that the rule makes in a text, in order, as far as the room for nesting lets
it. -/
def applications (room : Nat) : List Application :=
  Event.applications 0 (r.trace s room (.start text)).events

/-- In evaluating the rule in a text without limits, `a` is the application behind `i` others. -/
def Makes (i : Nat) (a : Application) : Prop := ∃ room, (r.applications s text room)[i]? = some a

/-- The evaluation makes `steps` applications, and no more than `depth` of them are ever open. -/
structure Takes (steps depth : Nat) : Prop where
  steps : ∀ i, (∃ a, r.Makes s text i a) ↔ i < steps
  attained : ∃ i a, r.Makes s text i a ∧ a.depth = depth
  depth_le : ∀ i a, r.Makes s text i a → a.depth ≤ depth

/-- Of all applications, that behind `i` others is the first one that the limits do not admit. -/
structure FirstRefused (l : Limits) (i : Nat) (a : Application) (f : Fault) : Prop where
  makes : r.Makes s text i a
  refuses : l.Refuses (i+1) a.depth a.cursor.offset f
  admits : ∀ j < i, ∀ a', r.Makes s text j a' → l.Admits (j+1) a'.depth

end

/-- The parse ends with the fault of the first application that the limits do not admit. -/
def Stopped (s : Store) (r : Rule) (text : String) (l : Limits) : Prop :=
  ∃ i a f, r.FirstRefused s text.toList l i a f ∧
    (∃ b, r.run s text.toList l = some (.error f, b)) ∧
    r.parseWith s text l = some (.error (.ofFault text.toList f)) ∧
    r.parseAllWith s text l = some (.error (.ofFault text.toList f))

variable {s : Store} {r : Rule} {text : List Char} {l : Limits}

theorem applications_mono {room room' : Nat} (h : room ≤ room') {i : Nat} {a : Application}
    (ha : (r.applications s text room)[i]? = some a) :
    (r.applications s text room')[i]? = some a := by
  obtain ⟨es, hes⟩ := (Rule.trace_grows s h r (.start text)).1
  have hi : i < (r.applications s text room).length := (List.getElem?_eq_some_iff.1 ha).1
  rw [applications, ← hes, Event.applications_append]
  exact (List.getElem?_append_left hi).trans ha

theorem Makes.unique {i : Nat} {a a' : Application} (h : r.Makes s text i a)
    (h' : r.Makes s text i a') : a = a' := by
  obtain ⟨room, ha⟩ := h
  obtain ⟨room', ha'⟩ := h'
  have hmax := applications_mono (Nat.le_max_left room room') ha
  rw [applications_mono (Nat.le_max_right room room') ha'] at hmax
  exact (Option.some.inj hmax).symm

theorem trace_eq_of_ended {room room' : Nat} {c : Cursor} (h : (r.trace s room c).step.isSome)
    (h' : (r.trace s room' c).step.isSome) : r.trace s room c = r.trace s room' c := by
  obtain ⟨step, hstep⟩ := Option.isSome_iff_exists.1 h
  obtain ⟨step', hstep'⟩ := Option.isSome_iff_exists.1 h'
  rcases Nat.le_total room room' with hle | hle
  · exact ((Rule.trace_grows s hle r c).2 step hstep).symm
  · exact (Rule.trace_grows s hle r c).2 step' hstep'

/-- An evaluation that is over makes no more applications in more room. -/
theorem makes_iff_of_ended {room : Nat} (h : (r.trace s room (.start text)).step.isSome) {i : Nat}
    {a : Application} : r.Makes s text i a ↔ (r.applications s text room)[i]? = some a := by
  constructor
  · intro ⟨room', ha⟩
    obtain ⟨step, hstep⟩ := Option.isSome_iff_exists.1 h
    have heq := (Rule.trace_grows s (Nat.le_max_left room room') r (.start text)).2 step hstep
    rw [applications, ← heq]
    exact applications_mono (Nat.le_max_right room room') ha
  · intro ha
    exact ⟨room, ha⟩

/-- An evaluation that is over has made an application, and so a deepest one. -/
theorem takes_of_ended {room : Nat} (h : (r.trace s room (.start text)).step.isSome) :
    ∃ depth, r.Takes s text (r.applications s text room).length depth := by
  have hne : r.applications s text room ≠ [] := by
    cases room with
    | zero => cases h
    | succ room => exact List.cons_ne_nil _ _
  have hmax : (((r.applications s text room).map Application.depth).max?).isSome := by
    rw [List.isSome_max?_iff]
    simpa using hne
  obtain ⟨depth, hdepth⟩ := Option.isSome_iff_exists.1 hmax
  obtain ⟨hmem, hle⟩ := List.max?_eq_some_iff.1 hdepth
  refine ⟨depth, ?_, ?_, ?_⟩
  · intro i
    simp only [makes_iff_of_ended h, List.getElem?_eq_some_iff]
    exact ⟨fun ⟨_, hi, _⟩ => hi, fun hi => ⟨_, hi, rfl⟩⟩
  · obtain ⟨a, ha, hd⟩ := List.mem_map.1 hmem
    obtain ⟨i, hi⟩ := List.mem_iff_getElem?.1 ha
    exact ⟨i, a, (makes_iff_of_ended h).2 hi, hd⟩
  · intro i a ha
    have ha := List.mem_of_getElem? ((makes_iff_of_ended h).1 ha)
    exact hle _ (List.mem_map_of_mem ha)

/-- Either no application is refused, or the run ends at the first one that is. -/
theorem Composed.run_cases (hs : s.Composed) (hr : r.Composed) (text : List Char) (l : Limits) :
    ((∀ i a, (r.applications s text (r.room s text l))[i]? = some a → l.Admits (i+1) a.depth) ∧
      r.run s text l = (r.trace s (r.room s text l) (.start text)).step.map
        (·, (Budget.fresh l).after (r.trace s (r.room s text l) (.start text)).events)) ∨
    ∃ i a f, r.FirstRefused s text l i a f ∧ ∃ b, r.run s text l = some (.error f, b) := by
  have hrun := hr.apply_eq_settle hs (r.room s text l) (.start text) (.fresh l)
  have hordinal (i : Nat) : (Budget.fresh l).steps+i+1 = i+1 := congrArg Nat.succ (Nat.zero_add i)
  rcases (r.trace s (r.room s text l) (.start text)).settle_cases (.fresh l) with
    ⟨hall, hset⟩ | ⟨i, a, f, hi, hbefore, hf, b, hset⟩
  · refine .inl ⟨?_, hrun.trans hset⟩
    intro i a ha
    have := hall i a ha
    rwa [hordinal] at this
  · right
    rw [hordinal] at hf
    refine ⟨i, a, f, ⟨⟨_, hi⟩, hf, ?_⟩, b, hrun.trans hset⟩
    intro j hj a' ha'
    -- In this room too there are `j` applications before it, so these are the same.
    have hlen : j < (r.applications s text (r.room s text l)).length :=
      Nat.lt_trans hj (List.getElem?_eq_some_iff.1 hi).1
    have hj' := List.getElem?_eq_getElem hlen
    obtain rfl := ha'.unique ⟨_, hj'⟩
    have := hbefore j hj _ hj'
    rwa [hordinal] at this

/-- The applications of a run that ends without limits, and what limits make of it. -/
theorem Composed.run_limited (hs : s.Composed) (hr : r.Composed) {step : Step} {b : Budget}
    (h : r.run s text .unbounded = some (step, b)) :
    ∃ depth, r.Takes s text b.steps depth ∧ ∀ l : Limits,
      (l.Admits b.steps depth → r.run s text l = some (step, { b with limits := l })) ∧
      (¬ l.Admits b.steps depth →
        ∃ i a f, r.FirstRefused s text l i a f ∧ ∃ b, r.run s text l = some (.error f, b)) := by
  have hsome (l : Limits) : (r.run s text l).isSome := by
    by_cases hl : l = .unbounded
    · rw [hl, h]
      rfl
    · exact run_isSome s r text hl
  rw [run, hr.apply_eq_settle hs, Trace.settle_unbounded _ rfl] at h
  obtain ⟨x, hstep, hx⟩ := Option.map_eq_some_iff.1 h
  obtain ⟨rfl, rfl⟩ := Prod.mk.inj hx
  have hended : (r.trace s (r.room s text .unbounded) (.start text)).step.isSome := by
    rw [hstep]
    rfl
  obtain ⟨depth, htakes⟩ := takes_of_ended hended
  have hsteps : ((Budget.fresh .unbounded).after
      (r.trace s (r.room s text .unbounded) (.start text)).events).steps =
      (r.applications s text (r.room s text .unbounded)).length := Nat.zero_add _
  rw [← hsteps] at htakes
  refine ⟨depth, htakes, ?_⟩
  intro l
  rcases hr.run_cases hs text l with ⟨hall, hrun⟩ | ⟨i, a, f, hf, hstop⟩
  · have hends := hsome l
    rw [hrun, Option.isSome_map] at hends
    have hsame := trace_eq_of_ended hends hended
    rw [hsame, hstep] at hrun
    refine ⟨fun _ => hrun, fun hna => absurd ?_ hna⟩
    rw [applications, hsame] at hall
    have hadmits {i : Nat} {a : Application} (ha : r.Makes s text i a) : l.Admits (i+1) a.depth :=
      hall i a ((makes_iff_of_ended hended).1 ha)
    -- The deepest application and the last one are admitted.
    obtain ⟨i, a, ha, hd⟩ := htakes.attained
    have hi := (htakes.steps i).1 ⟨a, ha⟩
    obtain ⟨a', ha'⟩ := (htakes.steps _).2 (Nat.sub_one_lt_of_lt hi)
    constructor
    · intro n hn
      have := (hadmits ha').steps n hn
      omega
    · intro d hmax
      rw [← hd]
      exact (hadmits ha).depth d hmax
  · have hi := (htakes.steps i).1 ⟨a, hf.makes⟩
    have hd := htakes.depth_le i a hf.makes
    exact ⟨fun ha => absurd (ha.mono hi hd) hf.refuses.not_admits,
      fun _ => ⟨i, a, f, hf, hstop⟩⟩

/-- A run that does not end without limits is refused something within any. -/
theorem Composed.run_endless (hs : s.Composed) (hr : r.Composed)
    (h : r.run s text .unbounded = none) (hl : l ≠ .unbounded) :
    ∃ i a f, r.FirstRefused s text l i a f ∧ ∃ b, r.run s text l = some (.error f, b) := by
  rcases hr.run_cases hs text l with ⟨_, hrun⟩ | hstop
  · exfalso
    have hends := run_isSome s r text hl
    rw [hrun, Option.isSome_map] at hends
    obtain ⟨step, hstep⟩ := Option.isSome_iff_exists.1 hends
    have happly := hr.apply_eq_settle hs (r.room s text l) (.start text) (.fresh .unbounded)
    rw [Trace.settle_unbounded _ rfl, hstep] at happly
    have hrun := (hr.run_eq_some_iff hs).2 ⟨_, happly⟩
    rw [h] at hrun
    cases hrun
  · exact hstop

theorem stopped_of_refused {text : String} {i : Nat} {a : Application} {f : Fault} {b : Budget}
    (hf : r.FirstRefused s text.toList l i a f) (h : r.run s text.toList l = some (.error f, b)) :
    r.Stopped s text l := by
  obtain ⟨hparse, hparseAll⟩ := parse_fault h
  exact ⟨i, a, f, hf, ⟨b, h⟩, hparse, hparseAll⟩

/-- A run without limits that ends is that within all limits it fits, and limits that it does not
fit stop it. What does not end is stopped by any limit. So a result that is not told by a limit does
not change with looser ones. -/
theorem limits_exact (hs : s.Composed) (hr : r.Composed) (text : String) (l : Limits) :
    (∀ step b, r.run s text.toList .unbounded = some (step, b) →
      ∃ depth, r.Takes s text.toList b.steps depth ∧
        (l.Admits b.steps depth →
          r.run s text.toList l = some (step, { b with limits := l }) ∧
          r.parseWith s text l = r.parseWith s text .unbounded ∧
          r.parseAllWith s text l = r.parseAllWith s text .unbounded) ∧
        (¬ l.Admits b.steps depth → r.Stopped s text l)) ∧
    (r.run s text.toList .unbounded = none → l ≠ .unbounded → r.Stopped s text l) ∧
    ∀ l' step b, l'.Loosens l → r.run s text.toList l = some (step, b) → ¬ step.Refused →
      r.run s text.toList l' = some (step, { b with limits := l' }) ∧
      r.parseWith s text l' = r.parseWith s text l ∧
      r.parseAllWith s text l' = r.parseAllWith s text l := by
  refine ⟨?_, ?_, ?_⟩
  · intro step b h
    obtain ⟨depth, htakes, hlimits⟩ := hr.run_limited hs h
    obtain ⟨hfits, hstops⟩ := hlimits l
    refine ⟨depth, htakes, fun ha => ?_, fun hna => ?_⟩
    · exact ⟨hfits ha, parse_congr h (hfits ha) rfl⟩
    · obtain ⟨i, a, f, hf, b', hrun⟩ := hstops hna
      exact stopped_of_refused hf hrun
  · intro h hl
    obtain ⟨i, a, f, hf, b, hrun⟩ := hr.run_endless hs h hl
    exact stopped_of_refused hf hrun
  · intro l' step b hloose h hn
    obtain ⟨d, hfresh, _⟩ := hr.apply_fresh hs h hn
    have hfree := (hr.run_eq_some_iff hs).2 ⟨_, hfresh⟩
    obtain ⟨depth, _, hlimits⟩ := hr.run_limited hs hfree
    have ha : l.Admits d.steps depth := by
      by_contra hna
      obtain ⟨i, a, f, hf, b', hrun⟩ := (hlimits l).2 hna
      rw [h] at hrun
      cases hrun
      exact hn hf.refuses.refused
    have hb := (hlimits l).1 ha
    rw [h] at hb
    have hrun := (hlimits l').1 (hloose.admits ha)
    cases hb
    exact ⟨hrun, parse_congr h hrun rfl⟩

/-- A repetition that takes four steps, two deep, with three; what the fourth gives; and a rule that
refers to itself alone. -/
theorem limits_exact_repeated :
    Stopped .empty (.repeated (.literal "a")) "aa" ⟨some 2, some 3⟩ ∧
    parseAllWith .empty (.repeated (.literal "a")) "aa" .standard =
      some (.ok (.list [.text "a", .text "a"])) ∧
    Stopped ⟨[some (.handle 0)], []⟩ (.recursive 0) "a" ⟨none, some 7⟩ := by
  refine ⟨?_, ?_, ?_⟩
  · obtain ⟨depth, _, _, hstops⟩ :=
      (limits_exact (s := .empty) (r := .repeated (.literal "a")) (by decide) (by decide) "aa"
        ⟨some 2, some 3⟩).1 _ _ rfl
    exact hstops fun ha => absurd (ha.steps 3 rfl) (by decide)
  · have hloose : Limits.standard.Loosens ⟨some 2, some 4⟩ := by
      refine ⟨fun n hn => ?_, fun n hn => ?_⟩ <;> cases hn
      exact ⟨2, by decide, rfl⟩
    exact ((limits_exact (s := .empty) (r := .repeated (.literal "a")) (by decide) (by decide) "aa"
      ⟨some 2, some 4⟩).2.2 _ _ _ hloose rfl (Step.not_refused_ok _)).2.2
  · exact (limits_exact (by decide) (by decide) "a" ⟨none, some 7⟩).2.1 rfl (by decide)

end Rule

end Descent
