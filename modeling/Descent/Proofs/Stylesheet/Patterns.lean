import Descent.Proofs.Reading
import Descent.Proofs.Scanning
import Descent.Proofs.Stylesheet.Written

namespace Descent

namespace CharSet

/-- The set with these characters added. -/
def adding (s : CharSet) (cs : List Char) : CharSet := cs.foldl (fun s c => .union s (.single c)) s

theorem contains_adding {s : CharSet} {cs : List Char} {c : Char} :
    (s.adding cs).contains c = true ↔ s.contains c = true ∨ c ∈ cs := by
  induction cs generalizing s with
  | nil => simp [adding]
  | cons a cs ih =>
    rw [show s.adding (a :: cs) = adding (.union s (.single a)) cs from rfl, ih, contains,
      Bool.or_eq_true, contains_single, List.mem_cons, or_assoc]

theorem contains_compl {s : CharSet} {c : Char} :
    (compl s).contains c = true ↔ ¬ s.contains c = true := by
  rw [contains, Bool.not_eq_true', Bool.not_eq_true]

theorem contains_compl_adding {cs : List Char} {c : Char} :
    (compl (adding .none cs)).contains c = true ↔ c ∉ cs := by
  rw [contains_compl, contains_adding]
  simp [contains]

end CharSet

namespace Stylesheet

open Regex (matchLength?_plus matchLength?_plus_none)

variable {s : Store} {taken left blanks : List Char}

theorem regex_eq {source : String} {r : Regex} (hw : Regex.parse? source.toList = some r)
    (h : (Regex.parse? source.toList).isSome = true) :
    regex source h = .token (.regex source r hw) := by
  obtain rfl : (Regex.parse? source.toList).get h = r := by simp [hw]
  rfl

theorem reads_regex {source : String} {r : Regex} (hw : Regex.parse? source.toList = some r)
    (hmatch : ∀ prev, r.matchLength? prev (taken ++ left) = some taken.length)
    (h : (Regex.parse? source.toList).isSome = true) :
    (regex source h).Reads s taken left (.text (String.ofList taken)) := by
  rw [regex_eq hw]
  refine Rule.reads_token fun c hc => ?_
  rw [Pattern.matchLength?, hc, hmatch]

theorem misses_regex {source : String} {r : Regex} (hw : Regex.parse? source.toList = some r)
    (hmatch : ∀ prev, r.matchLength? prev left = none)
    (h : (Regex.parse? source.toList).isSome = true) :
    (regex source h).Misses s left := by
  rw [regex_eq hw]
  refine Rule.misses_token fun c hc => ?_
  rw [Pattern.matchLength?, hc, hmatch]

theorem spaces_written : Regex.parse? "\\s+".toList = some (.plus true (.set .space)) := by decide

theorem reads_spaces (hblanks : ∀ b ∈ blanks, Text.isSpace b = true) (hne : blanks ≠ [])
    (hleft : ∀ c ∈ left.head?, Text.isSpace c = false)
    (h : (Regex.parse? "\\s+".toList).isSome = true) :
    (regex "\\s+" h).Reads s blanks left (.text (String.ofList blanks)) :=
  reads_regex spaces_written (matchLength?_plus ⟨hblanks, hleft⟩ hne) h

theorem misses_spaces (hleft : ∀ c ∈ left.head?, Text.isSpace c = false)
    (h : (Regex.parse? "\\s+".toList).isSome = true) : (regex "\\s+" h).Misses s left :=
  misses_regex spaces_written (matchLength?_plus_none hleft) h

/-- Every character, as the union of white space and all else. -/
def anyChar : CharSet := .union (.union .none .space) (.compl .space)

theorem contains_anyChar (c : Char) : anyChar.contains c = true := by
  simp [anyChar, CharSet.contains]

theorem comment_written : Regex.parse? "/\\*[\\s\\S]*?\\*/".toList = some
    (.seq (.set (.single '/')) (.seq (.set (.single '*')) (Regex.upToPair anyChar '*' '/'))) := by
  decide

theorem reads_comment {body : List Char} (hbody : ¬ ['*', '/'] <:+: body) (left : List Char) :
    comment.Reads s (commentText body) left (.text (String.ofList (commentText body))) :=
  reads_regex comment_written (Regex.matchLength?_bracket contains_anyChar '/' '*'
    (by decide) hbody) _

theorem misses_comment (h : ¬ ['/', '*'] <+: left) : comment.Misses s left :=
  misses_regex comment_written (Regex.matchLength?_bracket_none h) _

/-- The characters that end a selector. -/
def selectorEnds : List Char := ['\x7b', '\x7d', ',', ';', '/']

def selectorFirst : CharSet := .compl (CharSet.adding (.union .none .space) selectorEnds)

def selectorRest : CharSet := .compl (CharSet.adding .none selectorEnds)

theorem selector_written : Regex.parse? "[^\\s\x7b\x7d,;/][^\x7b\x7d,;/]*".toList =
    some (Regex.run selectorFirst selectorRest) := by
  decide

theorem contains_selectorFirst {c : Char} :
    selectorFirst.contains c = true ↔ Text.isSpace c = false ∧ c ∉ selectorEnds := by
  rw [selectorFirst, CharSet.contains_compl, CharSet.contains_adding]
  simp [CharSet.contains]

theorem not_mem_selectorEnds_of_isSpace {c : Char} (h : Text.isSpace c = true) :
    c ∉ selectorEnds := by
  have hends : selectorEnds.all (!Text.isSpace ·) = true := by decide
  intro hc
  have hc := List.all_eq_true.1 hends c hc
  rw [h] at hc
  cases hc

theorem reads_trimmed {r : Rule}
    (h : r.Reads s (taken ++ blanks) left (.text (String.ofList (taken ++ blanks))))
    (htaken : Text.Trimmed taken) (hne : taken ≠ [])
    (hblanks : ∀ b ∈ blanks, Text.isSpace b = true) :
    (trimmed r).Reads s (taken ++ blanks) left (.text (String.ofList taken)) := by
  refine Rule.reads_mapped h ?_
  simp only [Value.asText?, Option.getD_some, String.toList_ofList, htaken.trim_append hne hblanks]

theorem reads_selector (sel : Selector) (hblanks : ∀ b ∈ blanks, Text.isSpace b = true)
    (hleft : ∀ c ∈ left.head?, c ∈ selectorEnds) :
    selector.Reads s (sel.text ++ blanks) left sel.tree := by
  obtain ⟨text, hne, htrimmed, hclear⟩ := sel
  refine reads_trimmed (reads_regex selector_written (fun prev => ?_) _) htrimmed hne hblanks
  obtain ⟨c, cs, rfl⟩ := List.exists_cons_of_ne_nil hne
  rw [List.forall_mem_cons] at hclear
  have hfirst : selectorFirst.contains c = true :=
    contains_selectorFirst.2 ⟨htrimmed.first c rfl, hclear.1⟩
  have hspans : selectorRest.Spans (cs ++ blanks) left := by
    refine ⟨fun a ha => CharSet.contains_compl_adding.2 ?_, fun a ha => ?_⟩
    · rcases List.mem_append.1 ha with ha | ha
      · exact hclear.2 a ha
      · exact not_mem_selectorEnds_of_isSpace (hblanks a ha)
    · exact Bool.eq_false_iff.2 fun h => CharSet.contains_compl_adding.1 h (hleft a ha)
  exact Regex.matchLength?_run hfirst hspans prev

theorem misses_selector_nil (s : Store) : selector.Misses s [] := by
  have hend : ∀ c ∈ ([] : List Char).head?, selectorFirst.contains c = false := nofun
  exact Rule.misses_mapped (misses_regex selector_written (Regex.matchLength?_seq_none hend) _) _

def nameStart : CharSet :=
  .union (.union (CharSet.adding .none ['_']) (.range 'a' 'z')) (.range 'A' 'Z')

def namePart : CharSet := CharSet.adding (.union nameStart (.range '0' '9')) ['-']

theorem property_written : Regex.parse? "-?[_a-zA-Z][_a-zA-Z0-9-]*".toList =
    some (Regex.signed (.single '-') nameStart namePart) := by
  decide

theorem contains_nameStart {c : Char} : nameStart.contains c = true ↔ isNameStart c = true := by
  simp only [nameStart, CharSet.contains, CharSet.contains_adding, isNameStart, Bool.or_eq_true,
    Bool.and_eq_true, Bool.false_eq_true, false_or, List.mem_singleton, decide_eq_true_eq]

theorem contains_namePart {c : Char} : namePart.contains c = true ↔ isNamePart c = true := by
  simp only [namePart, CharSet.contains, CharSet.contains_adding, contains_nameStart, isNamePart,
    Bool.or_eq_true, Bool.and_eq_true, List.mem_singleton, decide_eq_true_eq]

/-- What begins with no part of a name ends one. -/
theorem reads_property (d : Declaration) (hleft : ∀ c ∈ left.head?, isNamePart c = false) :
    property.Reads s d.property left (.text (String.ofList d.property)) := by
  refine Rule.reads_label (reads_regex property_written (fun prev => ?_) _) _
  have hspans {cs : List Char} (h : ∀ a ∈ cs, isNamePart a = true) : namePart.Spans cs left :=
    ⟨fun a ha => contains_namePart.2 (h a ha), fun a ha => Bool.eq_false_iff.2 fun h =>
      Bool.eq_false_iff.1 (hleft a ha) (contains_namePart.1 h)⟩
  rcases isProperty_iff.1 d.property_ok with hname | ⟨cs, heq, hname⟩
  · obtain ⟨c, rest, heq, hc, hrest⟩ := isName_iff.1 hname
    have hne : c ≠ '-' := by
      rintro rfl
      cases hc
    rw [heq]
    exact Regex.matchLength?_unsigned (CharSet.contains_single_ne hne) (contains_nameStart.2 hc)
      (hspans hrest) prev
  · obtain ⟨c, rest, rfl, hc, hrest⟩ := isName_iff.1 hname
    rw [heq]
    exact Regex.matchLength?_signed (CharSet.contains_single_self '-') (by decide)
      (contains_nameStart.2 hc) (hspans hrest) prev

theorem misses_property (hleft : ∀ c ∈ left.head?, isNamePart c = false) :
    property.Misses s left := by
  refine Rule.misses_label (misses_regex property_written
    (Regex.matchLength?_signed_none fun c hc => ?_) _) _
  have hpart := hleft c hc
  rw [isNamePart, Bool.or_eq_false_iff, Bool.or_eq_false_iff, decide_eq_false_iff_not] at hpart
  refine ⟨CharSet.contains_single_ne hpart.2, Bool.eq_false_iff.2 fun h => ?_⟩
  exact Bool.eq_false_iff.1 hpart.1.1 (contains_nameStart.1 h)

/-- The characters that end a value. -/
def valueEnds : List Char := [';', '{', '}', '!']

def valueOne : CharSet := .compl (CharSet.adding .none (valueEnds ++ ['/']))

def valueSecond : CharSet := .compl (CharSet.adding .none ['*'])

theorem value_written : Regex.parse? "(?:[^;{}!/]|/[^*])+".toList =
    some (.plus true (Regex.paired valueOne (.single '/') valueSecond)) := by
  decide

theorem contains_valueOne {c : Char} : valueOne.contains c = true ↔ c ∉ valueEnds ∧ c ≠ '/' := by
  rw [valueOne, CharSet.contains_compl_adding, List.mem_append, List.mem_singleton, not_or]

theorem contains_valueSecond {c : Char} : valueSecond.contains c = true ↔ c ≠ '*' := by
  rw [valueSecond, CharSet.contains_compl_adding, List.mem_singleton]

theorem valueOne_slash (c : Char) (hc : (CharSet.single '/').contains c = true) :
    valueOne.contains c = false :=
  Bool.eq_false_iff.2 fun h => (contains_valueOne.1 h).2 (CharSet.contains_single.1 hc)

theorem contains_valueOne_of_isSpace {c : Char} (h : Text.isSpace c = true) :
    valueOne.contains c = true := by
  have hends : (valueEnds ++ ['/']).all (!Text.isSpace ·) = true := by decide
  refine CharSet.contains_compl_adding.2 fun hc => ?_
  have hc := List.all_eq_true.1 hends c hc
  rw [h] at hc
  cases hc

/-- What is read of a value: characters that do not end one, and slashes, each with a character
behind it that does not begin a comment with it. -/
abbrev ValueText (cs : List Char) : Prop := Regex.Paired valueOne (.single '/') valueSecond cs

theorem IsPlain.tail {c : Char} {cs : List Char} (h : IsPlain (c :: cs)) : IsPlain cs where
  clear := fun a ha => h.clear a (List.mem_cons_of_mem c ha)
  slashes := fun i hi hslash => h.slashes (i+1) (Nat.succ_lt_succ hi) hslash

theorem valueText_blanks (hblanks : ∀ b ∈ blanks, Text.isSpace b = true) : ValueText blanks := by
  induction blanks with
  | nil => exact .nil
  | cons b blanks ih =>
    rw [List.forall_mem_cons] at hblanks
    exact .single (contains_valueOne_of_isSpace hblanks.1) (ih hblanks.2)

/-- Each slash of a plain value makes a pair with the character behind it. -/
theorem IsPlain.valueText {value : List Char} (h : IsPlain value) : ValueText value := by
  match value with
  | [] => exact .nil
  | c :: cs =>
    by_cases hc : c = '/'
    · obtain ⟨d, hd, hne⟩ := h.slashes 0 (Nat.zero_lt_succ _) (congrArg some hc)
      obtain ⟨ds, rfl⟩ := List.head?_eq_some_iff.1 (List.head?_eq_getElem?.trans hd)
      exact .pair (CharSet.contains_single.2 hc) (contains_valueSecond.2 hne) h.tail.tail.valueText
    · exact .single (contains_valueOne.2 ⟨h.clear c List.mem_cons_self, hc⟩) h.tail.valueText
termination_by value.length

theorem reads_value (d : Declaration) (hvalue : ValueText (d.value ++ blanks))
    (hblanks : ∀ b ∈ blanks, Text.isSpace b = true)
    (hleft : (∀ c ∈ left.head?, c ∈ valueEnds) ∨ ['/', '*'] <+: left) :
    value.Reads s (d.value ++ blanks) left (.text (String.ofList d.value)) := by
  have hstops : Regex.PairStops valueOne (.single '/') valueSecond left := by
    rcases hleft with hleft | ⟨left, rfl⟩
    · refine fun c hc => ⟨Bool.eq_false_iff.2 fun h => (contains_valueOne.1 h).1 (hleft c hc),
        fun hslash => ?_⟩
      obtain rfl := CharSet.contains_single.1 hslash
      exact absurd (hleft _ hc) (by decide)
    · rintro c ⟨⟩
      refine ⟨valueOne_slash '/' (CharSet.contains_single_self '/'), fun _ d hd => ?_⟩
      obtain rfl := Option.some.inj hd
      exact Bool.eq_false_iff.2 fun h => contains_valueSecond.1 h rfl
  have hne : d.value ++ blanks ≠ [] := fun h => d.value_ne (List.append_eq_nil_iff.1 h).1
  exact Rule.reads_label (reads_trimmed (reads_regex value_written
    (Regex.matchLength?_paired valueOne_slash hvalue hstops hne) _) d.value_trimmed
    d.value_ne hblanks) _

theorem important_written : Regex.parse? "!\\s*important".toList = some
    (.seq (.set (.single '!')) (.seq (Regex.star true (.set .space))
      (Regex.word "important".toList))) := by
  decide

theorem reads_important (hblanks : ∀ b ∈ blanks, Text.isSpace b = true) (left : List Char) :
    important.Reads s (Declaration.markToken blanks) left
      (.text (String.ofList (Declaration.markToken blanks))) :=
  reads_regex important_written (Regex.matchLength?_marked '!' hblanks (by decide)) _

theorem misses_important (hleft : ∀ c ∈ left.head?, c ≠ '!') : important.Misses s left :=
  misses_regex important_written
    (Regex.matchLength?_seq_none fun c hc => CharSet.contains_single_ne (hleft c hc)) _

end Stylesheet

end Descent
