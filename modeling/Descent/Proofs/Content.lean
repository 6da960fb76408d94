import Descent.Proofs.Account
import Descent.Proofs.Extent
import Descent.Proofs.Parts

namespace Descent

namespace Value

/-- A value that is not collected has no text, so none is lost with it. -/
theorem contentCharsList_collect (v : Value) (vs : List Value) :
    contentCharsList (v.collect vs).reverse = contentCharsList vs.reverse ++ v.contentChars := by
  cases v with
  | unit => simp [collect, isUnit, contentChars]
  | text | list | bool | int | float | map =>
    simp [collect, isUnit, contentCharsList]

end Value

/-- Between the cursor and the rest of the match stands just the text of its value. -/
def Match.Quotes (c : Cursor) (m : Match) : Prop := c.after = m.value.contentChars ++ m.rest.after

def Step.Quotes (c : Cursor) : Step → Prop
  | .ok (.success m) => m.Quotes c
  | _ => True

namespace Rule

/-- Whether the rule makes its value of all the text that the values of the rules it applies stand
for. -/
def keepsText : Rule → Bool
  | .token _ | .choice _ | .sequence _ | .repeated _ | .optional _ | .label .. | .endOfInput
  | .handle _ | .recursive _ | .reference .. | .registered .. => true
  | .separated .. | .enclosed .. | .pair .. | .mapped .. | .discard _ | .primitive _ | .adapt .. =>
    false

/-- All that the rule leads to keeps text. -/
def Textual (s : Store) (r : Rule) : Prop := ∀ q, r.Contains s q → q.keepsText

variable {s : Store} {r : Rule}

theorem Textual.callee (h : r.Textual s) {q : Rule} (hq : q ∈ r.callees s) : q.Textual s :=
  fun p hp => h p (hp.head hq)

theorem Textual.composed (h : r.Textual s) : r.Composed := by
  refine composed_iff.2 fun q hq => ?_
  have hkeeps := h q (contains_of_mem_parts s hq)
  cases q <;> first | rfl | cases hkeeps

theorem textual_of_reach (h : ∀ q ∈ r.reach s, q.keepsText) : r.Textual s :=
  fun q hq => h q hq.mem_reach

end Rule

namespace Plan

/-- Textual rules are applied, and their matches quote the text. -/
def quoting (s : Store) : Contract := ⟨fun r _ => r.Textual s, fun _ c _ step => step.Quotes c⟩

variable {s : Store} {r : Rule} {c d : Cursor}

theorem call_quotes (hr : r.Textual s) (d : Cursor) (es : List Event) :
    Call (quoting s) (fun _ step => step.Quotes c) r d es (fun m _ => m.Quotes d) fun _ _ => True :=
  ⟨hr, fun _ _ _ => trivial, fun _ _ hm => hm, fun _ _ _ => trivial⟩

/-- From the start of a sequence or a repetition up to `d` stands the text of the values collected
so far. -/
def Collected (start : Cursor) (values : List Value) (d : Cursor) : Prop :=
  start.after = Value.contentCharsList values.reverse ++ d.after

theorem collected_nil (c : Cursor) : Collected c [] c := rfl

theorem Collected.collect {values : List Value} (h : Collected c values d) {m : Match}
    (hm : m.Quotes d) : Collected c (m.value.collect values) m.rest := by
  unfold Collected at h ⊢
  rw [h, hm, Value.contentCharsList_collect, List.append_assoc]

theorem Collected.gather {values : List Value} (h : Collected c values d) (es : List Event) :
    (gather values c d).Meets (quoting s) (fun _ step => step.Quotes c) es := h

theorem bound_quotes (found : Option Rule) (hr : ∀ r ∈ found, r.Textual s)
    (name : String) (c : Cursor) (es : List Event) :
    (bound found name c).Meets (quoting s) (fun _ step => step.Quotes c) es := by
  cases found with
  | none => trivial
  | some r => exact (call_quotes (hr r rfl) c es).forward

end Plan

namespace Rule

variable {s : Store} {r : Rule}

theorem Textual.plan_quotes (h : r.Textual s) (c : Cursor) (es : List Event) :
    (r.plan s c).Meets (Plan.quoting s) (fun _ step => step.Quotes c) es := by
  have hcallee {q : Rule} (hq : q ∈ r.callees s) : q.Textual s := h.callee hq
  cases r with
  | token p =>
    simp only [plan, Plan.token]
    split
    · rename_i n _
      change c.after = (String.ofList (c.after.take n)).toList ++ c.after.drop n
      rw [String.toList_ofList, List.take_append_drop]
    · trivial
  | choice =>
    exact Plan.choice_meets (I := fun _ _ => True)
      (fun r hr _ fs _ => Plan.call_quotes (hcallee hr) c fs) (fun _ _ _ => trivial) trivial
  | sequence =>
    refine Plan.sequence_meets (I := fun values d _ => Plan.Collected c values d)
      (fun r hr values d fs hd => ?_) (fun _ _ fs hd => hd.gather fs) (Plan.collected_nil c)
    exact (Plan.call_quotes (hcallee hr) d fs).mono (fun _ _ hm => hd.collect hm)
      fun _ _ _ => trivial
  | repeated =>
    -- A round that consumes nothing is left out with its text, and the repetition ends where the
    -- round began.
    refine Plan.repeated_meets (I := fun values d _ => Plan.Collected c values d)
      (fun values d fs hd => ?_) _ (Plan.collected_nil c)
    exact (Plan.call_quotes (hcallee (by simp [callees])) d fs).mono
      (fun _ gs hm => ⟨hd.gather gs, fun _ => hd.collect hm⟩) fun _ gs _ => hd.gather gs
  | optional =>
    exact (Plan.call_quotes (hcallee (by simp [callees])) c es).apply (fun _ _ hm => hm)
      fun _ _ _ => rfl
  | label =>
    refine (Plan.call_quotes (hcallee (by simp [callees])) c es).apply (fun _ _ hm => hm)
      fun f fs _ => ?_
    dsimp only
    split <;> trivial
  | endOfInput =>
    simp only [plan, Plan.endOfInput]
    split
    · exact rfl
    · trivial
  | handle | recursive | reference =>
    exact Plan.bound_quotes _ (fun q hq => hcallee (Option.mem_toList.2 hq)) _ c es
  | registered => exact (Plan.call_quotes (hcallee (by simp [callees])) c es).forward
  | separated | enclosed | pair | mapped | discard | primitive | adapt =>
    cases h _ Relation.ReflTransGen.refl

theorem Textual.apply_quotes (hr : r.Textual s) {room : Nat} {c : Cursor}
    {b b' : Budget} {m : Match} (h : r.apply s room c b = some (.ok (.success m), b')) :
    m.Within c ∧ m.Quotes c := by
  have hmeets (q : Rule) (d : Cursor) (hq : q.Textual s ∧ c.Reaches d) :
      (q.plan s d).Meets ((Plan.quoting s).and (Plan.staying c))
        (fun _ step => ∃ es, ((Plan.quoting s).and (Plan.staying c)).post q d es step) [] := by
    refine ((hq.1.plan_quotes d []).and (hq.1.composed.plan_stays d [])).mono ?_ ?_ ?_
    · exact fun _ _ hp => ⟨hp.1, hq.2.trans hp.2⟩
    · exact fun _ _ _ _ hp => hp
    · exact fun es _ hg => ⟨es, hg⟩
  rcases apply_meets (k := (Plan.quoting s).and (Plan.staying c)) hmeets ⟨hr, .refl c⟩ h with
    href | ⟨_, hquotes, hwithin⟩
  · exact absurd href (Step.not_refused_ok _)
  · exact ⟨hwithin, hquotes⟩

/-- A rule that keeps text consumes what its span says, and the text in the source there is the text
content of its value, on whatever budget. -/
theorem textContent_eq_consumed (hr : r.Textual s) (room : Nat) {c : Cursor}
    {b b' : Budget} {m : Match} (h : r.apply s room c b = some (.ok (.success m), b')) :
    m.span = ⟨c.offset, m.rest.offset⟩ ∧
    (m.span.slice? c.source).map String.ofList = some m.value.textContent := by
  obtain ⟨⟨hspan, hreaches⟩, hquotes⟩ := hr.apply_quotes h
  obtain ⟨taken, hslice, hafter⟩ := hreaches.slice?
  have htaken : taken = m.value.contentChars := List.append_cancel_right (hafter.symm.trans hquotes)
  refine ⟨hspan, ?_⟩
  rw [Span.slice?, hspan, hslice, htaken]
  rfl

/-- Nested brackets with a wide character, some way into a text and on a budget with a history. -/
theorem textContent_eq_consumed_nested :
    ∃ m b', apply ⟨[some (.sequence [.literal "(", .repeated (.handle 0), .optional (.literal "é"),
        .literal ")"])], []⟩ 10 (.label (.recursive 0) "brackets")
    ((Cursor.start "x((é))y".toList).advance 1)
        ⟨⟨some 20, none⟩, 4, 7, some ⟨0, [.endOfInput]⟩⟩ = some (.ok (.success m), b') ∧
      m.span = ⟨1, 7⟩ ∧ m.value.textContent = "((é))" ∧
      (m.span.slice? "x((é))y".toList).map String.ofList = some m.value.textContent := by
  refine ⟨_, _, rfl, ?_⟩
  obtain ⟨hspan, hcontent⟩ := textContent_eq_consumed
    (s := ⟨[some (.sequence [.literal "(", .repeated (.handle 0), .optional (.literal "é"),
      .literal ")"])], []⟩) (r := .label (.recursive 0) "brackets") (textual_of_reach (by decide))
    10 (c := (Cursor.start "x((é))y".toList).advance 1)
    (b := ⟨⟨some 20, none⟩, 4, 7, some ⟨0, [.endOfInput]⟩⟩) rfl
  exact ⟨hspan, rfl, hcontent⟩

end Rule

end Descent
