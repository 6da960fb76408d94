import Descent.Proofs.Stylesheet.Acceptance
import Descent.Proofs.Stylesheet.Matched

namespace Descent

namespace Stylesheet

open Rule

variable {s : Store} {text : List Char}

/-- An upper-case letter becomes a lower-case one, and any other character stays as it is. -/
theorem toLower_cases (c : Char) : (c.isUpper = false ∧ c.toLower = c) ∨
    (c.isUpper = true ∧ 'a' ≤ c.toLower ∧ c.toLower ≤ 'z') := by
  by_cases h : c.val ≥ 'A'.val ∧ c.val ≤ 'Z'.val
  · have hfirst : 65 ≤ c.val.toNat := UInt32.le_iff_toNat_le.1 h.1
    have hlast : c.val.toNat ≤ 90 := UInt32.le_iff_toNat_le.1 h.2
    have hlower : c.toLower.val = c.val + ('a'.val - 'A'.val) := congrArg Char.val (dif_pos h)
    have hlow : c.toLower.val.toNat = c.val.toNat+32 := by
      rw [hlower]
      exact (UInt32.toNat_add ..).trans (Nat.mod_eq_of_lt (show c.val.toNat+32 < 2^32 by omega))
    refine .inr ⟨decide_eq_true h, UInt32.le_iff_toNat_le.2 ?_, UInt32.le_iff_toNat_le.2 ?_⟩
    · exact hlow.symm ▸ Nat.add_le_add_right hfirst 32
    · exact hlow.symm ▸ Nat.add_le_add_right hlast 32
  · exact .inl ⟨decide_eq_false h, dif_neg h⟩

theorem isUpper_toLower (c : Char) : c.toLower.isUpper = false := by
  rcases toLower_cases c with ⟨h, heq⟩ | ⟨_, hfirst, _⟩
  · rw [heq, h]
  · refine decide_eq_false fun hupper => ?_
    have : 97 ≤ c.toLower.val.toNat := UInt32.le_iff_toNat_le.1 hfirst
    have : c.toLower.val.toNat ≤ 90 := UInt32.le_iff_toNat_le.1 hupper.2
    omega

theorem isNameStart_toLower {c : Char} (h : isNameStart c = true) :
    isNameStart c.toLower = true := by
  rcases toLower_cases c with ⟨_, heq⟩ | ⟨_, hfirst, hlast⟩
  · rw [heq, h]
  · simp [isNameStart, hfirst, hlast]

theorem isNamePart_toLower {c : Char} (h : isNamePart c = true) : isNamePart c.toLower = true := by
  rcases toLower_cases c with ⟨_, heq⟩ | ⟨_, hfirst, hlast⟩
  · rw [heq, h]
  · simp [isNamePart, isNameStart, hfirst, hlast]

theorem isName_map_toLower {cs : List Char} (h : isName cs = true) :
    isName (cs.map Char.toLower) = true := by
  obtain ⟨c, rest, rfl, hc, hrest⟩ := isName_iff.1 h
  refine isName_iff.2 ⟨c.toLower, rest.map Char.toLower, rfl, isNameStart_toLower hc, ?_⟩
  exact List.forall_mem_map.2 fun a ha => isNamePart_toLower (hrest a ha)

/-- A property keeps its form in lower case. -/
theorem isProperty_map_toLower {cs : List Char} (h : isProperty cs = true) :
    isProperty (cs.map Char.toLower) = true := by
  rcases isProperty_iff.1 h with h | ⟨rest, rfl, h⟩
  · exact isProperty_iff.2 (.inl (isName_map_toLower h))
  · exact isProperty_iff.2 (.inr ⟨rest.map Char.toLower, rfl, isName_map_toLower h⟩)

theorem answers_selector_lexeme (s : Store) (text : List Char) :
    (lexeme selector).Answers s text fun taken left v =>
    Bare left ∧ ∃ (sel : Selector) (lead trail : List Char),
      taken = lead ++ (sel.text ++ trail) ∧ IsTrivia lead ∧
      IsTrivia trail ∧ (Bare text → lead = []) ∧ v = sel.tree := by
  refine answers_lexeme fun lead rest htext hlead _ => (answers_selector s rest).mono ?_
  rintro taken rest v - ⟨sel, pad, rfl, hpad, rfl⟩ trail left - htrail hleft
  refine ⟨hleft, sel, lead, pad ++ trail, ?_, hlead, isTrivia_append_blanks hpad htrail,
    fun h => ?_, rfl⟩
  · simp only [List.append_assoc]
  · rw [htext] at h
    exact h.eq_nil hlead

theorem answers_selectors (s : Store) (hbare : Bare text) :
    selectors.Answers s text fun taken left v =>
    Bare left ∧ ∃ sels : List Selector, sels ≠ [] ∧
      Trailed (joined [','] (sels.map fun sel => [sel.text])) taken ∧
        v = .list (sels.map Selector.tree) := by
  refine answers_label (answers_separated Bare
    (fun taken left vs => Bare left ∧ ∃ sels : List Selector,
      Trailed (furtherSelectors sels) taken ∧ vs = sels.map Selector.tree) ?_ ?_ ?_) _
  · exact fun left h => ⟨h, [], .nil, rfl⟩
  · -- Trivia behind a comma comes before the selector, so the text need not be bare there.
    refine fun text _ => answers_literal s "," fun rest _ =>
      ⟨nofun, (answers_selector_lexeme s rest).mono ?_⟩
    rintro taken rest v - ⟨hrest, sel, lead, trail, rfl, hlead, htrail, -, rfl⟩
    refine ⟨by simp [sel.nonempty], hrest, ?_⟩
    rintro more left vs - ⟨hleft, sels, hsels, rfl⟩
    refine ⟨hleft, sel :: sels, ?_, rfl⟩
    simp only [List.append_assoc]
    exact .cons [','] hlead (.cons sel.text htrail hsels)
  · refine (answers_selector_lexeme s text).mono ?_
    rintro taken rest v - ⟨hrest, sel, lead, trail, rfl, -, htrail, hlead, rfl⟩
    refine ⟨hrest, ?_⟩
    rintro more left vs ⟨hleft, sels, hsels, rfl⟩
    refine ⟨hleft, sel :: sels, List.cons_ne_nil _ _, ?_, ?_⟩
    · rw [hlead hbare, List.nil_append, List.append_assoc]
      exact .cons sel.text htrail hsels
    · rw [← List.map_cons (f := Selector.tree), Value.kept_map fun _ => rfl]

theorem answers_property_lexeme (s : Store) (hbare : Bare text) :
    (lexeme property).Answers s text fun taken left v =>
    Bare left ∧ ∃ name gap, taken = name ++ gap ∧ isProperty name = true ∧ IsTrivia gap ∧
      v = .text (String.ofList name) := by
  refine answers_lexeme_bare hbare ((answers_property s text).mono ?_)
  rintro name rest v - ⟨hname, rfl⟩ gap left - hgap hleft
  exact ⟨hleft, name, gap, rfl, hname, hgap, rfl⟩

theorem answers_value_lexeme (s : Store) (text : List Char) :
    (lexeme value).Answers s text fun taken left v =>
    Bare left ∧ ∃ lead cs pad trail,
      taken = lead ++ (cs ++ pad ++ trail) ∧ IsTrivia lead ∧ IsTrivia trail ∧ cs ≠ [] ∧
      Text.Trimmed cs ∧ (∀ b ∈ pad, Text.isSpace b = true) ∧ ValueText (cs ++ pad) ∧
        v = .text (String.ofList cs) := by
  -- Nothing is skipped before the value, so it does not begin with white space.
  refine answers_lexeme fun lead rest htext hlead hbare => (answers_value s hbare.blank).mono ?_
  rintro taken rest v - ⟨cs, pad, rfl, hne, htrimmed, hpad, hvalue, rfl⟩ trail left - htrail hleft
  exact ⟨hleft, lead, cs, pad, trail, rfl, hlead, htrail, hne, htrimmed, hpad, hvalue, rfl⟩

theorem answers_mark (s : Store) (hbare : Bare text) :
    (Rule.optional (lexeme important)).Answers s text fun taken left v =>
      Bare left ∧ ∃ mark : Option (List Char),
        (∀ blanks ∈ mark, ∀ b ∈ blanks, Text.isSpace b = true) ∧
        Trailed (mark.map Declaration.markToken).toList taken ∧ (!v.isUnit) = mark.isSome := by
  refine answers_optional (answers_lexeme_bare hbare ((answers_important s text).mono ?_)) ?_
  · rintro taken rest v - ⟨blanks, rfl, hblanks, hv⟩ gap left - hgap hleft
    refine ⟨hleft, some blanks, ?_, trailed_single _ hgap, by rw [hv]; rfl⟩
    rintro _ ⟨⟩
    exact hblanks
  · exact ⟨hbare, none, nofun, .nil, rfl⟩

theorem answers_declaration (s : Store) (hbare : Bare text) :
    declaration.Answers s text fun taken left v =>
    taken ≠ [] ∧ Bare left ∧ ∃ d : Declaration, d.Laid taken ∧ v = d.tree := by
  refine answers_mapped (answers_sequence ((answers_property_lexeme s hbare).mono ?_))
  rintro taken rest v - ⟨-, name, gap₁, rfl, hname, hgap₁, rfl⟩
  refine answers_literal s ":" fun rest _ => (answers_value_lexeme s rest).mono ?_
  rintro taken rest v - ⟨hrest, gap₂, cs, pad, gap₃, rfl, hgap₂, hgap₃, hne, htrimmed,
    hpad, hvalue, rfl⟩
  refine (answers_mark s hrest).mono ?_
  rintro taken left w - ⟨hleft, mark, hblank, hmark, hw⟩
  let d : Declaration := ⟨name, cs, mark, hname, hne, htrimmed, hblank⟩
  have hlaid : d.Laid (name ++ (gap₁ ++ ([':'] ++ (gap₂ ++ (cs ++ pad ++ (gap₃ ++ taken)))))) :=
    ⟨pad, hpad, hvalue, .cons name hgap₁ (.cons [':'] hgap₂ (.cons (cs ++ pad) hgap₃ hmark))⟩
  -- The parts are nested as the rules are, and the layout as the tokens are.
  refine ⟨d.tree, declarationMap_kept d hw, ?_⟩
  rw [show ":".toList = [':'] from rfl]
  simp only [List.append_assoc, List.append_nil] at hlaid ⊢
  exact ⟨(hlaid.solid []).1, hleft, d, hlaid, rfl⟩

theorem answers_declarations (s : Store) (hbare : Bare text) :
    declarations.Answers s text fun taken left v =>
    Bare left ∧ ∃ (ds : List Declaration) (closed : Bool),
      (closed = true → ds ≠ []) ∧ LaidBody ds closed taken ∧
      v = .list (ds.map Declaration.tree) := by
  have hempty : false = true → ([] : List Declaration) ≠ [] := fun h => absurd h Bool.false_ne_true
  refine answers_mapped (answers_optional ?_ ⟨_, rfl, hbare, [], false, hempty, .empty, rfl⟩)
  refine answers_separated Bare (fun taken left vs => Bare left ∧
    ∃ (ds : List Declaration) (closed : Bool), LaidFurther ds closed taken ∧
      vs = ds.map Declaration.tree) ?_ ?_ ?_
  · exact fun left h => ⟨h, [], false, .done, rfl⟩
  · refine fun text hbare => (answers_punctuation rfl hbare).mono ?_
    rintro between rest - - ⟨hrest, gap, rfl, hgap⟩
    -- If no declaration follows, the semicolon closes the list.
    refine ⟨fun _ => ⟨hrest, [], true, .closed hgap, rfl⟩, (answers_declaration s hrest).mono ?_⟩
    rintro taken rest v - ⟨hne, hrest, d, hd, rfl⟩
    refine ⟨hne, hrest, ?_⟩
    rintro more left vs - ⟨hleft, ds, closed, hds, rfl⟩
    exact ⟨hleft, d :: ds, closed, .next hgap hd hds, rfl⟩
  · refine (answers_declaration s hbare).mono ?_
    rintro taken rest v - ⟨-, hrest, d, hd, rfl⟩
    refine ⟨hrest, ?_⟩
    rintro more left vs ⟨hleft, ds, closed, hds, rfl⟩
    refine ⟨_, rfl, hleft, d :: ds, closed, fun _ => List.cons_ne_nil _ _, .begun hd hds, ?_⟩
    rw [← List.map_cons (f := Declaration.tree), Value.kept_map fun _ => rfl]
    rfl

theorem answers_block (s : Store) (hbare : Bare text) : block.Answers s text fun taken left v =>
    Bare left ∧ ∃ (ds : List Declaration) (closed : Bool) (gap body trail : List Char),
      (closed = true → ds ≠ []) ∧
      taken = '\x7b' :: gap ++ (body ++ '\x7d' :: trail) ∧ IsTrivia gap ∧ LaidBody ds closed body ∧
        IsTrivia trail ∧ v = .list (ds.map Declaration.tree) := by
  refine answers_enclosed ((answers_punctuation rfl hbare).mono ?_)
  rintro lead rest - - ⟨hrest, gap, rfl, hgap⟩
  refine (answers_declarations s hrest).mono ?_
  rintro body rest v - ⟨hrest, ds, closed, hclosed, hbody, rfl⟩
  refine (answers_punctuation rfl hrest).mono ?_
  rintro last left - - ⟨hleft, trail, rfl, htrail⟩
  exact ⟨hleft, ds, closed, gap, body, trail, hclosed, rfl, hgap, hbody, htrail, rfl⟩

theorem answers_styleRule (s : Store) (hbare : Bare text) :
    styleRule.Answers s text fun taken left v =>
    taken ≠ [] ∧ Bare left ∧ ∃ r : StyleRule, r.Laid taken ∧ v = r.tree := by
  refine answers_mapped (answers_sequence ((answers_selectors s hbare).mono ?_))
  rintro front rest v - ⟨hrest, sels, hsels, hfront, rfl⟩
  refine (answers_block s hrest).mono ?_
  rintro taken left v - ⟨hleft, ds, closed, gap, body, trail, hclosed, rfl, hgap,
    hbody, htrail, rfl⟩
  let r : StyleRule := ⟨sels, ds, closed, hsels, hclosed⟩
  have hlaid : r.Laid (front ++ ('\x7b' :: gap ++ (body ++ '\x7d' :: trail))) :=
    ⟨hfront, hgap, hbody, htrail⟩
  refine ⟨r.tree, rfl, ?_⟩
  rw [List.append_nil]
  exact ⟨(hlaid.solid []).1, hleft, r, hlaid, rfl⟩

theorem answers_stylesheet (s : Store) (text : List Char) :
    stylesheet.Answers s text fun _ left v =>
    left = [] ∧ ∃ sheet, Laid sheet text ∧ v = tree sheet := by
  refine answers_enclosed ((answers_trivia s text).mono ?_)
  rintro gap rest - rfl ⟨hgap, hrest⟩
  have hrules : (repeated styleRule).Answers s rest fun taken _ v =>
      ∃ sheet, LaidRules sheet taken ∧ v = tree sheet := by
    refine answers_repeated Bare (fun taken _ vs =>
      ∃ sheet, LaidRules sheet taken ∧ vs = sheet.map StyleRule.tree) ?_ ?_ hrest ?_
    · exact fun left _ _ => ⟨[], .nil, rfl⟩
    · refine fun text hbare => (answers_styleRule s hbare).mono ?_
      rintro taken rest v - ⟨hne, hrest, r, hr, rfl⟩
      refine ⟨hne, hrest, ?_⟩
      rintro more left vs - ⟨sheet, hsheet, rfl⟩
      exact ⟨r :: sheet, .cons hr hsheet, rfl⟩
    · rintro taken left vs ⟨sheet, hsheet, rfl⟩
      exact ⟨sheet, hsheet, by rw [Value.kept_map fun _ => rfl, tree]⟩
  refine hrules.mono ?_
  rintro taken rest v rfl ⟨sheet, hsheet, rfl⟩
  refine answers_endOfInput s fun hrest => ⟨rfl, sheet, ⟨gap, taken, ?_, hgap, hsheet⟩, rfl⟩
  rw [hrest, List.append_nil]

theorem stylesheet_composed : stylesheet.Composed := by decide

theorem stylesheet_isLate : ∀ q ∈ stylesheet.parts, q.isLate = false := by decide

theorem stylesheet_height : stylesheet.height = 16 := by decide

/-- The usual limits stop no parse. -/
theorem parse_standard (text : String) :
    parse text .standard = stylesheet.parseAllWith .empty text .unbounded := by
  refine (stylesheet_composed.parse_of_height Store.composed_empty stylesheet_isLate rfl ?_ text).2
  rintro d ⟨⟩
  rw [stylesheet_height]
  decide

/-- Other limits can stop it at a step, or at a depth below the height of the grammar. -/
theorem parse_limited (text : String) (l : Limits) : parse text l = parse text .standard ∨
    (∃ n offset, l.maxSteps = some n ∧
      parse text l = some (.error (.ofFault text.toList ⟨.stepLimit n, offset⟩))) ∨
    ∃ d offset, l.maxDepth = some d ∧ d < 16 ∧
      parse text l = some (.error (.ofFault text.toList ⟨.depthLimit d, offset⟩)) := by
  rw [parse_standard, ← stylesheet_height]
  exact stylesheet_composed.parseAll_cases_of_height Store.composed_empty stylesheet_isLate l text

theorem parse_laid {sheet : List StyleRule} {text : String} (h : Laid sheet text.toList) :
    parse text .standard = some (.ok (tree sheet)) := by
  rw [parse_standard]
  exact stylesheet_composed.parseAll_of_reads Store.composed_empty (reads_laid .empty h)

/-- A text is a sheet as it is laid out, or does not match. -/
theorem parse_cases (text : String) : (∃ v, parse text .standard = some (.ok v) ∧
      ∃ sheet, Laid sheet text.toList ∧ v = tree sheet) ∨
    ∃ position expected found, parse text .standard =
      some (.error (.mismatch position expected found)) := by
  rw [parse_standard]
  exact stylesheet_composed.parseAll_of_answers Store.composed_empty
    (answers_stylesheet .empty text.toList)

theorem laid_of_parse {text : String} {l : Limits} {v : Value} (h : parse text l = some (.ok v)) :
    ∃ sheet, Laid sheet text.toList ∧ v = tree sheet := by
  rcases parse_limited text l with heq | ⟨n, offset, _, hstop⟩ | ⟨d, offset, _, _, hstop⟩
  · rw [heq] at h
    rcases parse_cases text with ⟨w, hok, hlaid⟩ | ⟨position, expected, found, hmismatch⟩
    · rw [hok] at h
      cases h
      exact hlaid
    · rw [hmismatch] at h
      cases h
  all_goals
    rw [hstop] at h
    cases h

/-- The texts that are accepted are those that can be laid out. -/
theorem parse_ok_iff {text : String} {v : Value} :
    parse text .standard = some (.ok v) ↔ ∃ sheet, Laid sheet text.toList ∧ v = tree sheet := by
  constructor
  · exact laid_of_parse
  · rintro ⟨sheet, hlaid, rfl⟩
    exact parse_laid hlaid

/-- What is parsed, under any limits, is the tree of a sheet, and the text is that sheet as it is
written. So nothing but white space and complete comments is left out, and nothing is added. -/
theorem parse_sound {text : String} {l : Limits} {v : Value} (h : parse text l = some (.ok v)) :
    ∃ sheet : List StyleRule, v = tree sheet ∧ Writes (tokens sheet) text.toList ∧
      ∀ r ∈ sheet, ∀ d ∈ r.declarations, isProperty (d.property.map Char.toLower) = true ∧
        ∀ c ∈ d.property.map Char.toLower, c.isUpper = false := by
  obtain ⟨sheet, hlaid, rfl⟩ := laid_of_parse h
  refine ⟨sheet, rfl, hlaid.writes, fun r _ d _ => ⟨isProperty_map_toLower d.property_ok, ?_⟩⟩
  rw [List.forall_mem_map]
  exact fun c _ => isUpper_toLower c

/-- A text with trivia in many places, under a bound on the depth that it just fits. -/
theorem parse_sound_sample :
    ∃ v, parse "/*x*/a , b\x7bTop:1/2 ! important;\x7d" ⟨some 16, none⟩ = some (.ok v) ∧
    ∃ sheet : List StyleRule, v = tree sheet ∧
      Writes (tokens sheet) "/*x*/a , b\x7bTop:1/2 ! important;\x7d".toList ∧
      ∀ r ∈ sheet, ∀ d ∈ r.declarations, isProperty (d.property.map Char.toLower) = true ∧
        ∀ c ∈ d.property.map Char.toLower, c.isUpper = false := by
  have h : parse "/*x*/a , b\x7bTop:1/2 ! important;\x7d" ⟨some 16, none⟩ = some (.ok (.list [.map [
      ("selectors", .list [.text "a", .text "b"]), ("declarations", .list [.map [
        ("property", .text "top"), ("value", .text "1/2"), ("important", .bool true)]])]])) := rfl
  exact ⟨_, h, parse_sound h⟩

/-- Parsing raises no fault and leaves nothing over: a text has a value or does not match. It
applies no rule deeper than 16 inside others, so a bound on the depth that leaves room for these
stops no parse. -/
theorem parse_never_faults (text : String) :
    ((∃ v, parse text .standard = some (.ok v)) ∨
      ∃ position expected found, parse text .standard =
        some (.error (.mismatch position expected found))) ∧
    (∀ i a, stylesheet.Makes .empty text.toList i a → a.depth ≤ 16) ∧
    ∀ l : Limits, parse text l = parse text .standard ∨
      (∃ n offset, l.maxSteps = some n ∧
        parse text l = some (.error (.ofFault text.toList ⟨.stepLimit n, offset⟩))) ∨
      ∃ d offset, l.maxDepth = some d ∧ d < 16 ∧
        parse text l = some (.error (.ofFault text.toList ⟨.depthLimit d, offset⟩)) := by
  refine ⟨(parse_cases text).imp_left fun ⟨v, hok, _⟩ => ⟨v, hok⟩, ?_, parse_limited text⟩
  obtain ⟨_, _, _, hmakes⟩ :=
    stylesheet_composed.run_of_height Store.composed_empty stylesheet_isLate text.toList
  rwa [stylesheet_height] at hmakes

end Stylesheet

end Descent
