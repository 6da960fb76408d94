import Descent.Proofs.Stylesheet.Soundness

namespace Descent

namespace Stylesheet

variable {c : Char} {front back text cs : List Char}

/-- How many slashes stand at the end. -/
def endSlashes (cs : List Char) : Nat := (cs.reverse.takeWhile (· = '/')).length

theorem endSlashes_append (cs ds : List Char) : endSlashes (cs ++ ds) =
    if endSlashes ds = ds.length then ds.length+endSlashes cs else endSlashes ds := by
  rw [endSlashes, List.reverse_append, List.takeWhile_append, apply_ite List.length,
    List.length_append, List.length_reverse]
  rfl

theorem endSlashes_cons_of_ne (h : c ≠ '/') (cs : List Char) :
    endSlashes (c :: cs) = endSlashes cs := by
  have hzero : endSlashes [c] = 0 := by simp [endSlashes, h]
  rw [← List.singleton_append, endSlashes_append, hzero]
  split <;> omega

/-- Whether they are odd in number does not depend on a pair that a slash begins. -/
theorem endSlashes_pair (c : Char) (cs : List Char) :
    endSlashes ('/' :: c :: cs) % 2 = endSlashes cs % 2 := by
  have heven : endSlashes ['/', c] = 0 ∨ endSlashes ['/', c] = 2 := by
    by_cases h : c = '/' <;> simp [endSlashes, h]
  rw [show '/' :: c :: cs = ['/', c] ++ cs from rfl, endSlashes_append]
  split <;> omega

/-- A character of a value is one that may stand anywhere, a slash that another character but an
asterisk follows, or the second of such a pair. -/
theorem valueText_cases (h : ValueText text) (htext : text = front ++ c :: back) :
    valueOne.contains c = true ∨ (c = '/' ∧ ∃ d ∈ back.head?, d ≠ '*') ∨
      endSlashes front % 2 = 1 := by
  induction h generalizing front with
  | nil => exact absurd htext.symm (by simp)
  | @single a rest ha _ ih =>
    rcases List.cons_eq_append_iff.1 htext with ⟨rfl, hcons⟩ | ⟨more, rfl, hmore⟩
    · obtain ⟨rfl, rfl⟩ := List.cons.inj hcons
      exact .inl ha
    · rw [endSlashes_cons_of_ne (contains_valueOne.1 ha).2]
      exact ih hmore
  | @pair a d rest ha hd _ ih =>
    obtain rfl := CharSet.contains_single.1 ha
    rcases List.cons_eq_append_iff.1 htext with ⟨rfl, hcons⟩ | ⟨more, rfl, hmore⟩
    · obtain ⟨rfl, rfl⟩ := List.cons.inj hcons
      exact .inr (.inl ⟨rfl, d, rfl, contains_valueSecond.1 hd⟩)
    · rcases List.cons_eq_append_iff.1 hmore with ⟨rfl, _⟩ | ⟨more, rfl, hmore⟩
      · exact .inr (.inr rfl)
      · rw [endSlashes_pair]
        exact ih (List.cons.inj hmore).2

/-- Where a value holds what would end it, or what would begin a comment, an odd number of slashes
leads up to that. -/
def Declaration.Shielded (d : Declaration) : Prop :=
  ∀ front c back, d.value = front ++ c :: back →
    c ∈ [';', '\x7b', '\x7d', '!'] ∨ (c = '/' ∧ back.head? = some '*') → endSlashes front % 2 = 1

theorem Declaration.Laid.shielded {d : Declaration} (h : d.Laid text) : d.Shielded := by
  intro front c back hvalue hc
  obtain ⟨pad, _, htext, _⟩ := h
  have hsplit : d.value ++ pad = front ++ c :: (back ++ pad) := by
    rw [hvalue, List.append_assoc, List.cons_append]
  rcases valueText_cases htext hsplit with hone | ⟨rfl, a, ha, hne⟩ | hodd
  · obtain ⟨hends, hslash⟩ := contains_valueOne.1 hone
    rcases hc with hc | ⟨rfl, _⟩
    · exact absurd hc hends
    · exact absurd rfl hslash
  · rcases hc with hc | ⟨_, hback⟩
    · exact absurd hc (by decide)
    · rw [List.head?_append, hback] at ha
      exact absurd (Option.some.inj ha).symm hne
  · exact hodd

/-- What is parsed is the tree of a sheet as it is written, and the values in it are shielded. -/
theorem parse_shielded {text : String} {l : Limits} {v : Value} (h : parse text l = some (.ok v)) :
    ∃ sheet : List StyleRule, v = tree sheet ∧ Writes (tokens sheet) text.toList ∧
      ∀ r ∈ sheet, ∀ d ∈ r.declarations, d.Shielded := by
  obtain ⟨sheet, hlaid, rfl⟩ := laid_of_parse h
  refine ⟨sheet, rfl, hlaid.writes, fun r hr d hd => ?_⟩
  obtain ⟨text, htext⟩ := hlaid.declaration r hr d hd
  exact htext.shielded

/-- Two declarations, the second with the end of a comment in its value. -/
theorem parse_shielded_sample : ∃ v, parse "a\x7bb:c/d;e:f//*g/ \x7d" .standard = some (.ok v) ∧
    ∃ sheet : List StyleRule, v = tree sheet ∧
      Writes (tokens sheet) "a\x7bb:c/d;e:f//*g/ \x7d".toList ∧
      ∀ r ∈ sheet, ∀ d ∈ r.declarations, d.Shielded := by
  have h : parse "a\x7bb:c/d;e:f//*g/ \x7d" .standard = some (.ok (.list [.map [
      ("selectors", .list [.text "a"]), ("declarations", .list [
        .map [("property", .text "b"), ("value", .text "c/d"), ("important", .bool false)],
        .map [("property", .text "e"), ("value", .text "f//*g/"),
          ("important", .bool false)]])]])) := rfl
  exact ⟨_, h, parse_shielded h⟩

/-- Behind a slash a semicolon, a brace, an exclamation mark and a comment are all parts of a
value. -/
theorem parse_behind_slash :
    parse "a\x7bb:c/;d:e\x7d" .standard = some (.ok (.list [.map [
      ("selectors", .list [.text "a"]), ("declarations", .list [
        .map [("property", .text "b"), ("value", .text "c/;d:e"),
          ("important", .bool false)]])]])) ∧
    parse "a\x7bb:c/\x7d /!important//**/ \x7d" .standard = some (.ok (.list [.map [
      ("selectors", .list [.text "a"]), ("declarations", .list [
        .map [("property", .text "b"), ("value", .text "c/\x7d /!important//**/"),
          ("important", .bool false)]])]])) :=
  ⟨rfl, rfl⟩

end Stylesheet

end Descent
