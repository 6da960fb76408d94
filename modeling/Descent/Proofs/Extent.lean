import Descent.Proofs.Boundary
import Descent.Proofs.Composed

namespace Descent

namespace Cursor

/-- `n` bytes into the source of the cursor there is a boundary, and not before the cursor. -/
structure Sees (c : Cursor) (n : Nat) : Prop where
  offset_le : c.offset ≤ n
  le_length : n ≤ Text.byteLength c.source
  isBoundary : Text.IsBoundary c.source n

theorem Reaches.sees {c d : Cursor} (h : c.Reaches d) {n : Nat} (hn : d.Sees n) : c.Sees n :=
  ⟨Nat.le_trans h.2 hn.offset_le, h.1 ▸ hn.le_length, h.1 ▸ hn.isBoundary⟩

theorem sees_offset (c : Cursor) : c.Sees c.offset := ⟨Nat.le_refl _, c.offset_le, c.isBoundary⟩

end Cursor

/-- The match begins at the cursor and consumed all up to its rest. -/
def Match.Within (c : Cursor) (m : Match) : Prop :=
  m.span = ⟨c.offset, m.rest.offset⟩ ∧ c.Reaches m.rest

def Step.Within (c : Cursor) : Step → Prop
  | .ok (.success m) => m.Within c
  | .ok (.failure f) => c.Sees f.offset
  | .error f => c.Sees f.offset

theorem Match.within_spanning {c d : Cursor} (h : c.Reaches d) (value : Value) :
    (Match.spanning value c d).Within c := by
  refine ⟨?_, h⟩
  simp [Match.spanning, Cursor.spanTo, Nat.max_eq_left h.2]

namespace Plan

/-- Rules are applied at or behind `c`, and end within. -/
def staying (c : Cursor) : Contract :=
  ⟨fun _ d => c.Reaches d, fun _ d _ step => Step.Within d step⟩

/-- The plan stays at or behind `c`, and ends within. -/
def Stays (c : Cursor) (p : Plan) (es : List Event) : Prop :=
  p.Meets (staying c) (fun _ step => Step.Within c step) es

section

variable {c d : Cursor}

theorem call_stays (hd : c.Reaches d) (r : Rule) (es : List Event) :
    Call (staying c) (fun _ step => Step.Within c step) r d es (fun m _ => m.Within d)
      fun f _ => c.Sees f.offset :=
  ⟨hd, fun _ _ hf => hd.sees hf, fun _ _ hm => hm, fun _ _ hf => hd.sees hf⟩

theorem stays_gather (h : c.Reaches d) (values : List Value) (es : List Event) :
    (gather values c d).Stays c es := Match.within_spanning h _

theorem elements_stays (r delimiter : Rule) (trailing : Bool) (h : c.Reaches d) (turns : Nat)
    (values : List Value) (es : List Event) :
    (elements r delimiter trailing c turns values d).Stays c es := by
  refine elements_meets (I := fun _ d _ => c.Reaches d) (fun values d es hd => ?_) turns h
  refine (call_stays hd delimiter es).mono (fun m fs hm => ?_) fun _ fs _ =>
    stays_gather hd values fs
  have hm := hd.trans hm.2
  refine (call_stays hm r fs).mono (fun n gs hn => ?_) fun _ gs _ => ?_
  · exact ⟨stays_gather hd values gs, fun _ => hm.trans hn.2⟩
  · split
    · exact stays_gather hm values gs
    · exact stays_gather hd values gs

theorem bound_stays (found : Option Rule) (name : String) (c : Cursor) (es : List Event) :
    (bound found name c).Stays c es := by
  cases found with
  | none => exact c.sees_offset
  | some r => exact (call_stays (.refl c) r es).forward

end

end Plan

theorem Rule.Composed.plan_stays {s : Store} {r : Rule} (h : r.Composed) (c : Cursor)
    (es : List Event) : (r.plan s c).Stays c es := by
  have hc := Cursor.Reaches.refl c
  cases h with
  | token p =>
    simp only [Rule.plan, Plan.token]
    split
    · exact Match.within_spanning (c.reaches_forward _) _
    · exact c.sees_offset
  | choice =>
    refine Plan.choice_meets (I := fun f _ => f.offset = c.offset) (fun r _ f fs hf => ?_)
      (fun f fs hf => ?_) rfl
    · exact (Plan.call_stays hc r fs).mono (fun _ _ hm => hm) fun _ _ _ => hf
    · change c.Sees f.offset
      rw [hf]
      exact c.sees_offset
  | sequence =>
    refine Plan.sequence_meets (I := fun _ d _ => c.Reaches d) (fun r _ _ d fs hd => ?_)
      (fun values d fs hd => Plan.stays_gather hd values fs) hc
    exact (Plan.call_stays hd r fs).mono (fun m _ hm => hd.trans hm.2) fun _ _ hf => hf
  | repeated =>
    refine Plan.repeated_meets (I := fun _ d _ => c.Reaches d) (fun values d fs hd => ?_) _ hc
    exact (Plan.call_stays hd _ fs).mono
      (fun m gs hm => ⟨Plan.stays_gather hd values gs, fun _ => hd.trans hm.2⟩)
      fun _ gs _ => Plan.stays_gather hd values gs
  | separated =>
    refine (Plan.call_stays hc _ es).require fun m fs hm => ?_
    exact Plan.elements_stays _ _ _ hm.2 _ _ fs
  | enclosed =>
    refine (Plan.call_stays hc _ es).require fun l fs hl => ?_
    refine (Plan.call_stays hl.2 _ fs).require fun m fs hm => ?_
    refine (Plan.call_stays (hl.2.trans hm.2) _ fs).require fun n fs hn => ?_
    exact Match.within_spanning ((hl.2.trans hm.2).trans hn.2) _
  | pair =>
    refine (Plan.call_stays hc _ es).require fun a fs ha => ?_
    refine (Plan.call_stays ha.2 _ fs).require fun d fs hd => ?_
    refine (Plan.call_stays (ha.2.trans hd.2) _ fs).require fun b fs hb => ?_
    exact Match.within_spanning ((ha.2.trans hd.2).trans hb.2) _
  | mapped _ f =>
    refine (Plan.call_stays hc _ es).require fun m fs hm => ?_
    split
    · exact hm
    · -- The fault names the start of the match, which is the cursor.
      change c.Sees m.span.start
      rw [hm.1]
      exact c.sees_offset
  | discard => exact (Plan.call_stays hc _ es).require fun _ _ hm => hm
  | optional =>
    exact (Plan.call_stays hc _ es).apply (fun _ _ hm => hm) fun _ _ _ => Match.within_spanning hc _
  | label =>
    refine (Plan.call_stays hc _ es).apply (fun _ _ hm => hm) fun f fs hf => ?_
    dsimp only
    split
    · exact c.sees_offset
    · exact hf
  | endOfInput =>
    simp only [Rule.plan, Plan.endOfInput]
    split
    · exact Match.within_spanning hc _
    · exact c.sees_offset
  | handle | recursive | reference => exact Plan.bound_stays _ _ c es
  | registered => exact (Plan.call_stays hc _ es).forward

/-- Every application is made at or behind the cursor by a composed rule, and ends within. -/
theorem Rule.Composed.trace_within {s : Store} (hs : s.Composed) {r : Rule} (hr : r.Composed)
    (room : Nat) (c : Cursor) :
    (∀ r' d, .opened r' d ∈ (r.trace s room c).events → r'.Composed ∧ c.Reaches d) ∧
    (∀ r' d step, .closed r' d step ∈ (r.trace s room c).events →
      c.Reaches d ∧ Step.Within d step) ∧
    ∀ step, (r.trace s room c).step = some step → Step.Within c step := by
  have hk := Rule.Composed.trace_keeps hs
    (k := ⟨fun _ d => c.Reaches d, fun _ d _ step => Step.Within d step⟩)
    (fun r d hr hd => ?_) room hr (.refl c)
  · refine ⟨hk.opened, ?_, hk.step⟩
    intro r' d step hm
    obtain ⟨hd, _, hw⟩ := hk.closed r' d step hm
    exact ⟨hd.2, hw.2⟩
  · exact (hr.plan_stays d []).mono (fun _ _ h => hd.trans h) (fun _ _ _ _ h => h) fun _ _ h => h

theorem Rule.Composed.trace_failures {s : Store} (hs : s.Composed) {r : Rule} (hr : r.Composed)
    {room : Nat} {c : Cursor} {f : Failure} (h : f ∈ Event.failures (r.trace s room c).events) :
    c.Sees f.offset := by
  obtain ⟨q, d, hm⟩ := Event.mem_failures.1 h
  obtain ⟨hd, hw⟩ := (hr.trace_within hs room c).2.1 q d _ hm
  exact hd.sees hw

end Descent
