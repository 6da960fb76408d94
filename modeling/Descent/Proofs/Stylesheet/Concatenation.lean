import Descent.Proofs.Stylesheet.Soundness
import Descent.Stylesheet.Statistics

namespace Descent

namespace Stylesheet

variable {gap text more : List Char}

theorem StyleRule.Laid.trail {r : StyleRule} (h : r.Laid text) (htrail : IsTrivia gap) :
    r.Laid (text ++ gap) := by
  obtain @⟨front, gap₁, body, gap₂, hfront, hgap₁, hbody, hgap₂⟩ := h
  have htext : front ++ ('\x7b' :: gap₁ ++ (body ++ '\x7d' :: gap₂)) ++ gap =
      front ++ ('\x7b' :: gap₁ ++ (body ++ '\x7d' :: (gap₂ ++ gap))) := by
    simp only [List.append_assoc, List.cons_append]
  rw [htext]
  exact ⟨hfront, hgap₁, hbody, hgap₂.append htrail⟩

/-- Trivia between two sheets stands behind the last rule of the first one, if there is one. -/
theorem LaidRules.append {sheet sheet' : List StyleRule} (h : LaidRules sheet text)
    (hne : sheet ≠ []) (hgap : IsTrivia gap) (hmore : LaidRules sheet' more) :
    LaidRules (sheet ++ sheet') (text ++ (gap ++ more)) := by
  induction h with
  | nil => exact absurd rfl hne
  | @cons r sheet text rest hr hrest ih =>
    rw [List.cons_append]
    -- The trivia goes to this rule only if no other follows it.
    cases hrest with
    | nil =>
      rw [List.append_nil, ← List.append_assoc]
      exact .cons (hr.trail hgap) hmore
    | cons hq hrest =>
      rw [List.append_assoc]
      exact .cons hr (ih (List.cons_ne_nil _ _))

theorem Laid.append {sheet sheet' : List StyleRule} (h : Laid sheet text)
    (hmore : Laid sheet' more) : Laid (sheet ++ sheet') (text ++ more) := by
  obtain ⟨gap, rest, rfl, hgap, hrest⟩ := h
  obtain ⟨gap', rest', rfl, hgap', hrest'⟩ := hmore
  by_cases hne : sheet = []
  · subst hne
    cases hrest
    exact ⟨gap ++ gap', rest', by simp only [List.append_nil, List.append_assoc],
      hgap.append hgap', hrest'⟩
  · exact ⟨gap, rest ++ (gap' ++ rest'), List.append_assoc .., hgap, hrest.append hne hgap' hrest'⟩

namespace Statistics

instance : Std.Associative add where
  assoc s t u := by simp only [add, Nat.add_assoc]

/-- What is counted before adds to what follows. -/
theorem foldl_add (rules : List Value) (s : Statistics) :
    rules.foldl (fun s rule => s.add (ofRule rule)) s =
    s.add (rules.foldl (fun s rule => s.add (ofRule rule)) zero) := by
  calc rules.foldl (fun s rule => s.add (ofRule rule)) s
    _ = (rules.map ofRule).foldl add (s.add zero) := List.foldl_map.symm
    _ = s.add ((rules.map ofRule).foldl add zero) := List.foldl_assoc
    _ = s.add (rules.foldl (fun s rule => s.add (ofRule rule)) zero) := by rw [List.foldl_map]

theorem ofSheet_append (rules rules' : List Value) :
    ofSheet (.list (rules ++ rules')) = (ofSheet (.list rules)).add (ofSheet (.list rules')) :=
  (List.foldl_append ..).trans (foldl_add rules' _)

/-- What is written in a sheet, counted. -/
def written (sheet : List StyleRule) : Statistics where
  rules := sheet.length
  selectors := (sheet.flatMap StyleRule.selectors).length
  declarations := (sheet.flatMap StyleRule.declarations).length
  important := (sheet.flatMap StyleRule.declarations).countP fun d => d.mark.isSome

theorem written_append (sheet sheet' : List StyleRule) :
    written (sheet ++ sheet') = (written sheet).add (written sheet') := by
  simp [written, add]

theorem ofRule_tree (r : StyleRule) : ofRule r.tree = written [r] := by
  have himportant (d : Declaration) : isImportant d.tree = d.mark.isSome := by
    cases hmark : d.mark <;> simp [isImportant, Declaration.tree, hmark, Value.get?, Entries.get?,
      Value.asBool?]
  have hselectors : listUnder "selectors" r.tree = r.selectors.map Selector.tree := rfl
  have hdeclarations : listUnder "declarations" r.tree = r.declarations.map Declaration.tree := rfl
  simp [ofRule, written, hselectors, hdeclarations, List.countP_map, Function.comp_def, himportant]

/-- The counts over a parsed sheet are those of what is written. -/
theorem ofSheet_tree (sheet : List StyleRule) : ofSheet (tree sheet) = written sheet := by
  induction sheet with
  | nil => rfl
  | cons r sheet ih =>
    have hone : ofSheet (.list [r.tree]) = ofRule r.tree := by
      simp [ofSheet, Value.asList?, add, zero]
    rw [tree] at ih
    rw [tree, List.map_cons, ← List.singleton_append, ofSheet_append, ih, hone, ofRule_tree,
      ← written_append, List.singleton_append]

end Statistics

/-- Two texts that sheets are laid out in give, one behind the other, the rules of both sheets and
the sum of what is written in them. -/
theorem laid_append {text text' : String} {sheet sheet' : List StyleRule}
    (h : Laid sheet text.toList) (h' : Laid sheet' text'.toList) :
    Laid (sheet ++ sheet') (text ++ text').toList ∧
    parse (text ++ text') .standard =
      some (.ok (.list (sheet.map StyleRule.tree ++ sheet'.map StyleRule.tree))) ∧
    Statistics.ofSheet (tree (sheet ++ sheet')) =
      (Statistics.written sheet).add (Statistics.written sheet') := by
  have hboth : Laid (sheet ++ sheet') (text ++ text').toList := by
    rw [String.toList_append]
    exact h.append h'
  refine ⟨hboth, parse_ok_iff.2 ⟨_, hboth, ?_⟩, ?_⟩
  · rw [tree, List.map_append]
  · rw [Statistics.ofSheet_tree, Statistics.written_append]

/-- Two accepted texts, one behind the other, give the rules of the first and then those of the
second. -/
theorem parse_append {text text' : String} {v v' : Value} (h : parse text .standard = some (.ok v))
    (h' : parse text' .standard = some (.ok v')) :
    ∃ rules rules', v = .list rules ∧ v' = .list rules' ∧
      parse (text ++ text') .standard = some (.ok (.list (rules ++ rules'))) ∧
      Statistics.ofSheet (.list (rules ++ rules')) =
        (Statistics.ofSheet v).add (Statistics.ofSheet v') := by
  obtain ⟨sheet, hlaid, rfl⟩ := parse_ok_iff.1 h
  obtain ⟨sheet', hlaid', rfl⟩ := parse_ok_iff.1 h'
  obtain ⟨-, hparse, -⟩ := laid_append hlaid hlaid'
  exact ⟨sheet.map StyleRule.tree, sheet'.map StyleRule.tree, rfl, rfl, hparse,
    Statistics.ofSheet_append ..⟩

/-- White space and comments at the end of the one text and at the beginning of the other. -/
theorem parse_append_sample :
    ∃ v v', parse "a\x7bb:c!important\x7d/*1*/ " .standard = some (.ok v) ∧
    parse " /*2*/p,q\x7b\x7d" .standard = some (.ok v') ∧
      ∃ rules rules', v = .list rules ∧ v' = .list rules' ∧
      parse ("a\x7bb:c!important\x7d/*1*/ " ++ " /*2*/p,q\x7b\x7d") .standard =
        some (.ok (.list (rules ++ rules'))) ∧
      Statistics.ofSheet (.list (rules ++ rules')) =
        (Statistics.ofSheet v).add (Statistics.ofSheet v') := by
  have h : parse "a\x7bb:c!important\x7d/*1*/ " .standard = some (.ok (.list [.map [
      ("selectors", .list [.text "a"]), ("declarations", .list [.map [
        ("property", .text "b"), ("value", .text "c"), ("important", .bool true)]])]])) := rfl
  have h' : parse " /*2*/p,q\x7b\x7d" .standard = some (.ok (.list [.map [
      ("selectors", .list [.text "p", .text "q"]), ("declarations", .list [])]])) := rfl
  exact ⟨_, _, h, h', parse_append h h'⟩

end Stylesheet

end Descent
