import Descent.Proofs.Reading

namespace Descent.Rule

/-- In front of `text` the rule fails, or it reads a part of it. That part, the text left behind it
and the value are as `post` says. -/
def Answers (s : Store) (r : Rule) (text : List Char)
    (post : List Char → List Char → Value → Prop) : Prop :=
  r.Misses s text ∨ ∃ taken left v, text = taken ++ left ∧ r.Reads s taken left v ∧
    post taken left v

/-- The same of rules that are applied one after the other. -/
def AnswerAll (s : Store) : List Rule → List Char →
    (List Char → List Char → List Value → Prop) → Prop
  | [], text, post => post [] text []
  | r :: rs, text, post => r.Answers s text fun taken left v =>
    AnswerAll s rs left fun more left vs => post (taken ++ more) left (v :: vs)

variable {s : Store} {r l t delimiter : Rule} {rs : List Rule}
  {taken left text : List Char} {v : Value} {post goal : List Char → List Char → Value → Prop}

theorem Answers.mono (h : r.Answers s text post)
    (hpost : ∀ taken left v, text = taken ++ left → post taken left v → goal taken left v) :
    r.Answers s text goal := by
  rcases h with h | ⟨taken, left, v, htext, hreads, h⟩
  · exact .inl h
  · exact .inr ⟨taken, left, v, htext, hreads, hpost taken left v htext h⟩

theorem answers_literal (s : Store) (word : String) {text : List Char}
    (h : ∀ left, text = word.toList ++ left → post word.toList left (.text word)) :
    (literal word).Answers s text post := by
  by_cases hprefix : word.toList <+: text
  · obtain ⟨left, rfl⟩ := hprefix
    exact .inr ⟨_, left, _, rfl, reads_literal s word left, h left rfl⟩
  · exact .inl (misses_literal hprefix)

theorem answers_endOfInput (s : Store) (h : text = [] → post [] [] .unit) :
    endOfInput.Answers s text post := by
  by_cases htext : text = []
  · exact .inr ⟨[], [], .unit, htext, reads_endOfInput s, h htext⟩
  · exact .inl (misses_endOfInput htext)

theorem answers_choice (h : ∀ q ∈ rs, q.Answers s text post) : (choice rs).Answers s text post := by
  suffices hall :
      ∀ before, (∀ q ∈ before, q.Misses s text) → (choice (before ++ rs)).Answers s text post from
    hall [] (List.forall_mem_nil _)
  induction rs with
  | nil =>
    intro before hbefore
    rw [List.append_nil]
    exact .inl (misses_choice hbefore)
  | cons r rs ih =>
    intro before hbefore
    rw [List.forall_mem_cons] at h
    rcases h.1 with hmisses | ⟨taken, left, v, rfl, hreads, hpost⟩
    · rw [List.append_cons]
      exact ih h.2 _ (List.forall_mem_append.2 ⟨hbefore, List.forall_mem_singleton.2 hmisses⟩)
    · exact .inr ⟨taken, left, v, rfl, reads_choice hbefore hreads, hpost⟩

theorem AnswerAll.cases {all : List Char → List Char → List Value → Prop}
    (h : AnswerAll s rs text all) :
    (∃ before q after taken left vs, rs = before ++ q :: after ∧ text = taken ++ left ∧
      ReadsAll s before taken left vs ∧ q.Misses s left) ∨
    ∃ taken left vs, text = taken ++ left ∧ ReadsAll s rs taken left vs ∧ all taken left vs := by
  induction rs generalizing text all with
  | nil => exact .inr ⟨[], text, [], rfl, .nil text, h⟩
  | cons r rs ih =>
    rcases h with hmisses | ⟨taken, left, v, rfl, hreads, h⟩
    · exact .inl ⟨[], r, rs, [], text, [], rfl, rfl, .nil text, hmisses⟩
    · rcases ih h with ⟨before, q, after, more, left, vs, rfl, rfl, hbefore, hq⟩ |
        ⟨more, left, vs, rfl, hrest, h⟩
      · exact .inl ⟨r :: before, q, after, taken ++ more, left, v :: vs, rfl,
          (List.append_assoc ..).symm, .cons hreads hbefore, hq⟩
      · exact .inr ⟨taken ++ more, left, v :: vs, (List.append_assoc ..).symm,
          .cons hreads hrest, h⟩

theorem answers_sequence
    (h : AnswerAll s rs text fun taken left vs => post taken left (.list (Value.kept vs))) :
    (sequence rs).Answers s text post := by
  rcases h.cases with ⟨before, q, after, taken, left, vs, rfl, rfl, hbefore, hq⟩ |
    ⟨taken, left, vs, rfl, hreads, h⟩
  · exact .inl (misses_sequence_behind hbefore hq after)
  · exact .inr ⟨taken, left, _, rfl, reads_sequence hreads, h⟩

section

variable (inv : List Char → Prop) (all : List Char → List Char → List Value → Prop)

/-- A repetition whose turns all take something ends. `all` says what the turns that are still to
come add up to. -/
theorem exists_repeats (hstop : ∀ left, inv left → r.Misses s left → all [] left [])
    (hturn : ∀ text, inv text → r.Answers s text fun taken rest v => taken ≠ [] ∧ inv rest ∧
      ∀ more left vs, rest = more ++ left → all more left vs → all (taken ++ more) left (v :: vs))
    (text : List Char) (h : inv text) :
    ∃ taken left vs, text = taken ++ left ∧ Repeats s r taken left vs ∧ all taken left vs := by
  rcases hturn text h with hmisses | ⟨taken, rest, v, rfl, hreads, hne, hinv, hstep⟩
  · exact ⟨[], text, [], rfl, .stop hmisses, hstop text h hmisses⟩
  · have hshorter : rest.length < (taken ++ rest).length := by
      have := List.length_pos_iff.2 hne
      rw [List.length_append]
      omega
    obtain ⟨more, left, vs, rfl, hmore, hall⟩ := exists_repeats hstop hturn rest hinv
    exact ⟨taken ++ more, left, v :: vs, (List.append_assoc ..).symm, .step hne hreads hmore,
      hstep more left vs rfl hall⟩
termination_by text.length

theorem answers_repeated (hstop : ∀ left, inv left → r.Misses s left → all [] left [])
    (hturn : ∀ text, inv text → r.Answers s text fun taken rest v => taken ≠ [] ∧ inv rest ∧
      ∀ more left vs, rest = more ++ left → all more left vs → all (taken ++ more) left (v :: vs))
    (h : inv text) (hpost : ∀ taken left vs,
      all taken left vs → post taken left (.list (Value.kept vs))) :
    (repeated r).Answers s text post := by
  obtain ⟨taken, left, vs, rfl, hreads, hall⟩ := exists_repeats inv all hstop hturn text h
  exact .inr ⟨taken, left, _, rfl, reads_repeated hreads, hpost taken left vs hall⟩

/-- The same of what follows an element of a list. The list stops, or it goes on behind a
delimiter. -/
theorem exists_continues {trailing : Bool} (hstop : ∀ left, inv left → all [] left [])
    (hturn : ∀ text, inv text → delimiter.Answers s text fun between rest _ =>
      (trailing = true → all between rest []) ∧
        r.Answers s rest fun taken rest v => taken ≠ [] ∧ inv rest ∧
        ∀ more left vs, rest = more ++ left → all more left vs →
          all (between ++ (taken ++ more)) left (v :: vs))
    (text : List Char) (h : inv text) :
    ∃ taken left vs, text = taken ++ left ∧ Continues s r delimiter trailing taken left vs ∧
      all taken left vs := by
  rcases hturn text h with hmisses | ⟨between, rest, w, rfl, hd, htrail, hr⟩
  · exact ⟨[], text, [], rfl, .stop hmisses, hstop text h⟩
  · rcases hr with hmisses | ⟨taken, rest, v, rfl, hreads, hne, hinv, hstep⟩
    · cases ht : trailing with
      | true => exact ⟨between, rest, [], rfl, .trail rfl hd hmisses, htrail ht⟩
      | false => exact ⟨[], between ++ rest, [], rfl, .rewind rfl hd hmisses, hstop _ h⟩
    · have hshorter : rest.length < (between ++ (taken ++ rest)).length := by
        have := List.length_pos_iff.2 hne
        simp only [List.length_append]
        omega
      obtain ⟨more, left, vs, rfl, hmore, hall⟩ := exists_continues hstop hturn rest hinv
      exact ⟨between ++ (taken ++ more), left, v :: vs, by simp only [List.append_assoc],
        .next hne hd hreads hmore, hstep more left vs rfl hall⟩
termination_by text.length

theorem answers_separated {trailing : Bool} (hstop : ∀ left, inv left → all [] left [])
    (hturn : ∀ text, inv text → delimiter.Answers s text fun between rest _ =>
      (trailing = true → all between rest []) ∧
        r.Answers s rest fun taken rest v => taken ≠ [] ∧ inv rest ∧
        ∀ more left vs, rest = more ++ left → all more left vs →
          all (between ++ (taken ++ more)) left (v :: vs))
    (h : r.Answers s text fun taken rest v => inv rest ∧
      ∀ more left vs, all more left vs → post (taken ++ more) left (.list (Value.kept (v :: vs)))) :
    (separated r delimiter trailing).Answers s text post := by
  rcases h with hmisses | ⟨taken, rest, v, rfl, hreads, hinv, hpost⟩
  · exact .inl (misses_separated hmisses delimiter trailing)
  · obtain ⟨more, left, vs, rfl, hmore, hall⟩ := exists_continues inv all hstop hturn rest hinv
    exact .inr ⟨taken ++ more, left, _, (List.append_assoc ..).symm, reads_separated hreads hmore,
      hpost more left vs hall⟩

end

theorem answers_enclosed (h : l.Answers s text fun lead rest _ =>
    r.Answers s rest fun taken rest v =>
    t.Answers s rest fun trail left _ => post (lead ++ (taken ++ trail)) left v) :
    (enclosed l r t).Answers s text post := by
  rcases h with hl | ⟨lead, _, _, rfl, hl,
    hr | ⟨taken, _, v, rfl, hr, ht | ⟨trail, left, _, rfl, ht, h⟩⟩⟩
  · exact .inl (misses_enclosed_left hl r t)
  · exact .inl (misses_enclosed hl hr t)
  · exact .inl (misses_enclosed_right hl hr ht)
  · exact .inr ⟨_, left, v, by simp only [List.append_assoc], reads_enclosed hl hr ht, h⟩

theorem answers_mapped {f : Value → Except String Value}
    (h : r.Answers s text fun taken left v => ∃ w, f v = .ok w ∧ post taken left w) :
    (mapped r f).Answers s text post := by
  rcases h with hmisses | ⟨taken, left, v, rfl, hreads, w, hf, h⟩
  · exact .inl (misses_mapped hmisses f)
  · exact .inr ⟨taken, left, w, rfl, reads_mapped hreads hf, h⟩

theorem answers_discard (h : r.Answers s text fun taken left _ => post taken left .unit) :
    (discard r).Answers s text post := by
  rcases h with hmisses | ⟨taken, left, v, rfl, hreads, h⟩
  · exact .inl (misses_discard hmisses)
  · exact .inr ⟨taken, left, .unit, rfl, reads_discard hreads, h⟩

theorem answers_optional (h : r.Answers s text post) (hnone : post [] text .unit) :
    (optional r).Answers s text post := by
  rcases h with hmisses | ⟨taken, left, v, rfl, hreads, h⟩
  · exact .inr ⟨[], text, .unit, rfl, reads_optional_none hmisses, hnone⟩
  · exact .inr ⟨taken, left, v, rfl, reads_optional hreads, h⟩

theorem answers_label (h : r.Answers s text post) (name : String) :
    (label r name).Answers s text post := by
  rcases h with hmisses | ⟨taken, left, v, rfl, hreads, h⟩
  · exact .inl (misses_label hmisses name)
  · exact .inr ⟨taken, left, v, rfl, reads_label hreads name, h⟩

/-- A rule that reads to the end of a text or fails parses it or reports a mismatch. It raises no
fault, and leaves nothing over. -/
theorem Composed.parseAll_of_answers (hs : s.Composed) (hr : r.Composed) {text : String}
    {good : Value → Prop} (h : r.Answers s text.toList fun _ left v => left = [] ∧ good v) :
    (∃ v, r.parseAllWith s text .unbounded = some (.ok v) ∧ good v) ∨
    ∃ position expected found, r.parseAllWith s text .unbounded =
      some (.error (.mismatch position expected found)) := by
  rcases h with hmisses | ⟨taken, left, v, htext, hreads, rfl, hv⟩
  · exact .inr (hr.parseAll_of_misses hs hmisses)
  · rw [List.append_nil] at htext
    exact .inl ⟨v, hr.parseAll_of_reads hs (htext ▸ hreads), hv⟩

end Descent.Rule
