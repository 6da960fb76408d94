import Descent.Proofs.Account
import Descent.Proofs.Nesting
import Descent.Proofs.Parts

namespace Descent

/-- Among the events a pair ends with the list of these items for its value. -/
def Event.Paired (es : List Event) (items : List Value) : Prop :=
  ∃ first second delimiter d m,
    .closed (.pair first second delimiter) d (.ok (.success m)) ∈ es ∧ m.value = .list items

theorem Event.Paired.mono {es fs : List Event} {items : List Value} (h : Paired es items)
    (hsub : es ⊆ fs) : Paired fs items := by
  obtain ⟨first, second, delimiter, d, m, hmem, hvalue⟩ := h
  exact ⟨first, second, delimiter, d, m, hsub hmem, hvalue⟩

namespace Value

/-- What rules without transforms yield. -/
def isMatched : Value → Bool
  | .unit | .text _ | .list _ => true
  | .bool _ | .int _ | .float _ | .map _ => false

/-- A list with a `unit` has two items, and is the value of a pair among the events. -/
def PairedIn (es : List Event) : Value → Prop
  | .list items => .unit ∈ items → (∃ v w, items = [v, w]) ∧ Event.Paired es items
  | _ => True

/-- The value is made of units, texts and lists, and pairs account for all units in lists. -/
def Collected (es : List Event) (v : Value) : Prop :=
  v.Everywhere fun u => u.isMatched = true ∧ u.PairedIn es

variable {es fs : List Event} {v : Value} {vs values : List Value}

theorem PairedIn.mono (h : v.PairedIn es) (hsub : es ⊆ fs) : v.PairedIn fs := by
  cases v with
  | list items => exact fun hunit => ⟨(h hunit).1, (h hunit).2.mono hsub⟩
  | unit | text | bool | int | float | map => trivial

theorem Collected.mono (h : v.Collected es) (hsub : es ⊆ fs) : v.Collected fs :=
  fun u hu => ⟨(h u hu).1, (h u hu).2.mono hsub⟩

theorem collected_unit (es : List Event) : unit.Collected es :=
  everywhere_iff.2 ⟨⟨rfl, trivial⟩, fun _ hu => absurd hu List.not_mem_nil⟩

theorem collected_text (es : List Event) (s : String) : (text s).Collected es :=
  everywhere_iff.2 ⟨⟨rfl, trivial⟩, fun _ hu => absurd hu List.not_mem_nil⟩

theorem collected_list (h : ∀ v ∈ vs, v.Collected es) (hpaired : (list vs).PairedIn es) :
    (list vs).Collected es :=
  everywhere_iff.2 ⟨⟨rfl, hpaired⟩, h⟩

/-- Values that a sequence or a repetition has collected so far, latest first. -/
def Gathered (es : List Event) (values : List Value) : Prop :=
  ∀ v ∈ values, v ≠ .unit ∧ v.Collected es

theorem gathered_nil (es : List Event) : Gathered es [] := fun _ hv => absurd hv List.not_mem_nil

theorem Gathered.mono (h : Gathered es values) (hsub : es ⊆ fs) : Gathered fs values :=
  fun v hv => ⟨(h v hv).1, (h v hv).2.mono hsub⟩

theorem Gathered.collect (h : Gathered es values) (hv : v.Collected es) :
    Gathered es (v.collect values) := by
  unfold Value.collect
  split
  · exact h
  · rename_i hunit
    intro u hu
    rcases List.mem_cons.1 hu with rfl | hu
    · refine ⟨?_, hv⟩
      rintro rfl
      exact hunit rfl
    · exact h u hu

/-- What is collected makes a list without `unit`. -/
theorem Gathered.list (h : Gathered es values) : (Value.list values.reverse).Collected es := by
  refine collected_list (fun v hv => (h v (List.mem_reverse.1 hv)).2) fun hunit => ?_
  exact absurd rfl (h _ (List.mem_reverse.1 hunit)).1

end Value

def Step.Collected (es : List Event) : Step → Prop
  | .ok (.success m) => m.value.Collected es
  | _ => True

theorem Step.Collected.mono {es fs : List Event} {step : Step} (h : step.Collected es)
    (hsub : es ⊆ fs) : step.Collected fs := by
  match step, h with
  | .ok (.success m), h => exact Value.Collected.mono h hsub
  | .ok (.failure _), _ | .error _, _ => trivial

namespace Rule

def isMapped : Rule → Bool
  | .mapped .. => true
  | _ => false

def isPair : Rule → Bool
  | .pair .. => true
  | _ => false

end Rule

namespace Plan

/-- Rules that the root leads to are applied, and what they yield is collected. -/
def collecting (s : Store) (root : Rule) : Contract :=
  ⟨fun q _ => root.Contains s q, fun _ _ => Step.Collected⟩

/-- What the plan of a rule ends with is collected, once this end is among the events too. -/
def Closes (r : Rule) (c : Cursor) (es : List Event) (step : Step) : Prop :=
  step.Collected (es ++ [.closed r c step])

variable {s : Store} {root q r : Rule} {c d : Cursor} {m : Match} {es : List Event}
  {values : List Value}

theorem closes_success (h : m.value.Collected es) : Closes r c es (.ok (.success m)) :=
  Value.Collected.mono h (List.subset_append_left _ _)

theorem call_collects (hq : root.Contains s q) (d : Cursor) (es : List Event) :
    Call (collecting s root) (Closes r c) q d es (fun m fs => es ⊆ fs ∧ m.value.Collected fs)
      fun _ fs => es ⊆ fs where
  pre := hq
  error _ _ _ := trivial
  success _ _ hm :=
    ⟨List.subset_append_left _ _, Value.Collected.mono hm (List.subset_append_right _ _)⟩
  failure _ _ _ := List.subset_append_left _ _

theorem require_collects (hq : root.Contains s q) {next : Match → Plan}
    (hnext : ∀ m fs, es ⊆ fs → m.value.Collected fs →
      (next m).Meets (collecting s root) (Closes r c) fs) :
    (require q d next).Meets (collecting s root) (Closes r c) es :=
  ((call_collects hq d es).mono (fun _ _ hm => hm) fun _ _ _ => trivial).require fun m fs hm =>
    hnext m fs hm.1 hm.2

theorem forward_collects (hq : root.Contains s q) (d : Cursor) (es : List Event) :
    (forward q d).Meets (collecting s root) (Closes r c) es :=
  ((call_collects hq d es).mono (fun _ _ hm => closes_success hm.2) fun _ _ _ => trivial).forward

theorem bound_collects (found : Option Rule) (hfound : ∀ q ∈ found, root.Contains s q)
    (name : String) (d : Cursor) (es : List Event) :
    (bound found name d).Meets (collecting s root) (Closes r c) es := by
  cases found with
  | none => trivial
  | some q => exact forward_collects (hfound q rfl) d es

theorem gather_collects (h : Value.Gathered es values) (start d : Cursor) :
    (gather values start d).Meets (collecting s root) (Closes r c) es := closes_success h.list

end Plan

namespace Rule

open Plan

variable {s : Store} {root r : Rule}

/-- Without a transform, nothing but a pair puts a unit into a list, and then the end of the pair
accounts for it. -/
theorem Composed.plan_collects (hr : r.Composed) (hcallee : ∀ q ∈ r.callees s, root.Contains s q)
    (hmapped : r.isMapped = false) (c : Cursor) (es : List Event) :
    (r.plan s c).Meets (collecting s root) (Closes r c) es := by
  cases hr with
  | mapped => cases hmapped
  | token p =>
    simp only [Rule.plan, Plan.token]
    split
    · exact closes_success (Value.collected_text _ _)
    · trivial
  | choice =>
    exact choice_meets (I := fun _ _ => True) (fun q hq _ fs _ =>
      (call_collects (hcallee q hq) c fs).mono (fun _ _ hm => closes_success hm.2)
        fun _ _ _ => trivial)
      (fun _ _ _ => trivial) trivial
  | sequence =>
    refine sequence_meets (I := fun values _ fs => Value.Gathered fs values)
      (fun q hq values d fs hvalues => ?_)
      (fun _ d _ hvalues => gather_collects hvalues c d) (Value.gathered_nil es)
    exact (call_collects (hcallee q hq) d fs).mono (fun _ _ hm => (hvalues.mono hm.1).collect hm.2)
      fun _ _ _ => trivial
  | repeated =>
    refine repeated_meets (I := fun values _ fs => Value.Gathered fs values)
      (fun values d fs hvalues => ?_) _ (Value.gathered_nil es)
    refine (call_collects (hcallee _ (by simp [callees])) d fs).mono (fun _ _ hm => ?_)
      fun _ _ hsub => gather_collects (hvalues.mono hsub) c d
    exact ⟨gather_collects (hvalues.mono hm.1) c d, fun _ => (hvalues.mono hm.1).collect hm.2⟩
  | separated =>
    refine require_collects (hcallee _ (by simp [callees])) fun m fs _ hm => ?_
    refine elements_meets (I := fun values _ fs => Value.Gathered fs values)
      (fun values d gs hvalues => ?_) _ ((Value.gathered_nil fs).collect hm)
    -- The value of a delimiter is dropped.
    refine (call_collects (hcallee _ (by simp [callees])) d gs).mono (fun n gs hn => ?_)
      fun _ _ hsub => gather_collects (hvalues.mono hsub) c d
    have hvalues := hvalues.mono hn.1
    refine (call_collects (hcallee _ (by simp [callees])) n.rest gs).mono (fun _ _ ho => ?_)
      fun _ _ hsub => gather_collects (hvalues.mono hsub) c _
    exact ⟨gather_collects (hvalues.mono ho.1) c d, fun _ => (hvalues.mono ho.1).collect ho.2⟩
  | enclosed =>
    refine require_collects (hcallee _ (by simp [callees])) fun l fs _ _ => ?_
    refine require_collects (hcallee _ (by simp [callees])) fun m gs _ hm => ?_
    exact require_collects (hcallee _ (by simp [callees])) fun _ _ hsub _ =>
      closes_success (hm.mono hsub)
  | pair =>
    refine require_collects (hcallee _ (by simp [callees])) fun a fs _ ha => ?_
    refine require_collects (hcallee _ (by simp [callees])) fun delimiter gs hfs _ => ?_
    refine require_collects (hcallee _ (by simp [callees])) fun b hs hgs hb => ?_
    have hboth : ∀ v ∈ [a.value, b.value], v.Collected hs := by
      intro v hv
      simp only [List.mem_cons, List.not_mem_nil, or_false] at hv
      rcases hv with rfl | rfl
      · exact (ha.mono hfs).mono hgs
      · exact hb
    refine Value.collected_list (fun v hv => (hboth v hv).mono (List.subset_append_left _ _))
      fun _ => ?_
    exact ⟨⟨_, _, rfl⟩, _, _, _, _, _, List.mem_append_right _ List.mem_cons_self, rfl⟩
  | discard =>
    exact require_collects (hcallee _ (by simp [callees])) fun _ _ _ _ =>
      closes_success (Value.collected_unit _)
  | optional =>
    exact (call_collects (hcallee _ (by simp [callees])) c es).apply
      (fun _ _ hm => closes_success hm.2) fun _ _ _ => closes_success (Value.collected_unit _)
  | label =>
    refine (call_collects (hcallee _ (by simp [callees])) c es).apply
      (fun _ _ hm => closes_success hm.2) fun f fs _ => ?_
    dsimp only
    split <;> trivial
  | endOfInput =>
    simp only [Rule.plan, Plan.endOfInput]
    split
    · exact closes_success (Value.collected_unit _)
    · trivial
  | handle | recursive | reference =>
    exact bound_collects _ (fun q hq => hcallee q (Option.mem_toList.2 hq)) _ c es
  | registered => exact forward_collects (hcallee _ (by simp [callees])) c es

/-- In the evaluation of a rule without transforms all that is applied is a part of it, and all
values are collected. -/
theorem Composed.trace_collects (hs : s.Composed) (hr : r.Composed)
    (hm : ∀ q, r.Contains s q → q.isMapped = false) (room : Nat) (c : Cursor) :
    (r.trace s room c).Keeps ((Contract.asking fun q _ => q.Composed).and (collecting s r))
      Step.Collected := by
  refine Composed.trace_keeps hs (k := collecting s r) (fun q d hq hrq => ?_) room hr
    Relation.ReflTransGen.refl
  refine (hq.plan_collects (fun p hp => hrq.tail hp) (hm q hrq) d []).mono (fun _ _ hp => hp)
    (fun _ _ _ _ hp => hp) ?_
  exact fun es step hclose => hclose.mono (List.subset_cons_self _ _)

/-- Without transforms the value of a success is made of units, texts and lists. A list in it that
has a unit, at whatever depth, has two items, and is the value of a pair that was applied on the
way; so without pairs no list in it has a unit. -/
theorem unit_only_in_pairs (hs : s.Composed) (hr : r.Composed)
    (hm : ∀ q, r.Contains s q → q.isMapped = false) {room : Nat} {c : Cursor} {b b' : Budget}
    {m : Match} (h : r.apply s room c b = some (.ok (.success m), b')) :
    (m.value.Everywhere fun v => v.isMatched = true) ∧
    (∀ items, .list items ∈ m.value.parts → .unit ∈ items →
      (∃ v w, items = [v, w]) ∧ Event.Paired (r.trace s room c).events items) ∧
    ((∀ q, r.Contains s q → q.isPair = false) →
      ∀ items, .list items ∈ m.value.parts → .unit ∉ items) := by
  have hkeeps := hr.trace_collects hs hm room c
  have hvalue : m.value.Collected (r.trace s room c).events :=
    hkeeps.step _ (hr.apply_not_refused hs h (Step.not_refused_ok _)).1
  have hpaired : ∀ items, .list items ∈ m.value.parts → .unit ∈ items →
      (∃ v w, items = [v, w]) ∧ Event.Paired (r.trace s room c).events items :=
    fun items hitems => (hvalue _ hitems).2
  refine ⟨fun v hv => (hvalue v hv).1, hpaired, fun hnone items hitems hunit => ?_⟩
  obtain ⟨_, first, second, delimiter, d, n, hclosed, _⟩ := hpaired items hitems hunit
  have hcontains : r.Contains s (.pair first second delimiter) := (hkeeps.closed _ _ _ hclosed).1.2
  cases hnone _ hcontains

/-- Items, each with a pair that may hold another in brackets, and with blanks that are dropped. -/
def bracketedPairs : Store :=
  ⟨[some (.pair (.optional (literal "a"))
    (.optional (.enclosed (literal "(") (.handle 0) (literal ")"))) comma)],
    [.ofList [("item", .sequence [.discard (literal " "), .recursive 0,
    .repeated (.optional (literal "x"))])]]⟩

/-- A pair with another in brackets, which has nothing on either side of its comma. -/
theorem unit_only_in_pairs_nested :
    ∃ m b', apply bracketedPairs 20 (.repeated (.reference 0 "item"))
      ((Cursor.start "b a,(,)".toList).advance 1)
        ⟨⟨some 20, none⟩, 4, 7, none⟩ = some (.ok (.success m), b') ∧
      m.value = .list [.list [.list [.text "a", .list [.unit, .unit]], .list []]] ∧
      (m.value.Everywhere fun v => v.isMatched = true) ∧
      Event.Paired (trace bracketedPairs 20 (.repeated (.reference 0 "item"))
        ((Cursor.start "b a,(,)".toList).advance 1)).events [.unit, .unit] := by
  refine ⟨_, _, rfl, rfl, ?_⟩
  have hparts :
      ∀ q ∈ reach bracketedPairs (.repeated (.reference 0 "item")), q.isMapped = false := by decide
  obtain ⟨hmatched, hpaired, _⟩ :=
    unit_only_in_pairs (s := bracketedPairs) (r := .repeated (.reference 0 "item"))
    (c := (Cursor.start "b a,(,)".toList).advance 1) (b := ⟨⟨some 20, none⟩, 4, 7, none⟩)
    (by decide) (by decide) (fun q hq => hparts q hq.mem_reach) (show apply _ 20 _ _ _ = _ from rfl)
  have hmem : Value.list [.unit, .unit] ∈ Value.parts
      (.list [.list [.list [.text "a", .list [.unit, .unit]], .list []]]) := by
    simp [Value.parts, Value.partsList]
  exact ⟨hmatched, (hpaired _ hmem List.mem_cons_self).2⟩

end Rule

end Descent
