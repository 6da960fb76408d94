import Descent.Proofs.Height
import Descent.Proofs.Stylesheet.Layout
import Descent.Proofs.Stylesheet.Lexemes

namespace Descent

namespace Stylesheet

open Rule

variable {s : Store} {gap lead trail left text : List Char}

theorem Selector.solid (sel : Selector) (more : List Char) : Solid (sel.text ++ more) := by
  obtain ⟨text, hne, htrimmed, hclear⟩ := sel
  obtain ⟨c, cs, rfl⟩ := List.exists_cons_of_ne_nil hne
  refine solid_cons (htrimmed.first c rfl) ?_ (cs ++ more)
  rintro rfl
  exact hclear '/' List.mem_cons_self (by decide)

theorem isSpace_bounds {c : Char} (h : Text.isSpace c = true) : c.toNat ≤ 32 ∨ 133 ≤ c.toNat := by
  have hranges : ∀ r ∈ Text.spaceRanges.list, r.2 ≤ 32 ∨ 133 ≤ r.1 := by decide
  obtain ⟨r, hr, hlo, hhi⟩ := Text.Ranges.contains_iff.1 h
  have := hranges r hr
  omega

theorem isNamePart_bounds {c : Char} (h : isNamePart c = true) :
    45 ≤ c.toNat ∧ c.toNat ≤ 122 ∧ c.toNat ≠ 47 := by
  have hrange {a b : Char} (h : a ≤ c ∧ c ≤ b) : a.toNat ≤ c.toNat ∧ c.toNat ≤ b.toNat :=
    ⟨UInt32.le_iff_toNat_le.1 h.1, UInt32.le_iff_toNat_le.1 h.2⟩
  simp only [isNamePart, isNameStart, Bool.or_eq_true, Bool.and_eq_true, decide_eq_true_eq] at h
  rcases h with (((rfl | h) | h) | h) | rfl
  · decide
  · have : 97 ≤ c.toNat ∧ c.toNat ≤ 122 := hrange h
    omega
  · have : 65 ≤ c.toNat ∧ c.toNat ≤ 90 := hrange h
    omega
  · have : 48 ≤ c.toNat ∧ c.toNat ≤ 57 := hrange h
    omega
  · decide

theorem solid_of_isNamePart {c : Char} (h : isNamePart c = true) (cs : List Char) :
    Solid (c :: cs) := by
  have hbounds := isNamePart_bounds h
  refine solid_cons (Bool.eq_false_iff.2 fun hspace => ?_) ?_ cs
  · have := isSpace_bounds hspace
    omega
  · rintro rfl
    exact hbounds.2.2 rfl

namespace Declaration

variable (d : Declaration)

theorem property_head : ∃ c cs, d.property = c :: cs ∧ isNamePart c = true := by
  rcases isProperty_iff.1 d.property_ok with hname | ⟨rest, heq, _⟩
  · obtain ⟨c, rest, heq, hc, _⟩ := isName_iff.1 hname
    exact ⟨c, rest, heq, isNamePart_of_isNameStart hc⟩
  · exact ⟨'-', rest, heq, rfl⟩

theorem property_solid (more : List Char) : Solid (d.property ++ more) := by
  obtain ⟨c, cs, heq, hc⟩ := d.property_head
  rw [heq]
  exact solid_of_isNamePart hc _

theorem value_solid {pad : List Char} (hvalue : ValueText (d.value ++ pad)) (more : List Char) :
    Solid (d.value ++ pad ++ more) := by
  obtain ⟨c, cs, heq⟩ := List.exists_cons_of_ne_nil d.value_ne
  have hblank : Text.isSpace c = false := by
    refine d.value_trimmed.first c ?_
    rw [heq]
    rfl
  rw [heq, List.cons_append] at hvalue ⊢
  generalize cs ++ pad = rest at hvalue ⊢
  cases hvalue with
  | single hc _ => exact solid_cons hblank (contains_valueOne.1 hc).2 _
  | @pair _ e rest _ he _ =>
    refine ⟨fun a ha => Option.some.inj ha ▸ hblank, fun hcomment => contains_valueSecond.1 he ?_⟩
    exact (List.cons_prefix_cons.1 (List.cons_prefix_cons.1 hcomment).2).1.symm

end Declaration

/-- What stands behind a declaration. -/
def EndsDeclaration (left : List Char) : Prop := left.head? = some ';' ∨ left.head? = some '\x7d'

theorem EndsDeclaration.solid (h : EndsDeclaration left) : Solid left := by
  rcases h with h | h
  · exact solid_of_head h (by decide) (by decide)
  · exact solid_of_head h (by decide) (by decide)

theorem EndsDeclaration.mem_valueEnds (h : EndsDeclaration left) :
    ∀ c ∈ left.head?, c ∈ valueEnds := by
  rcases h with h | h <;> simp [h, valueEnds]

/-- The colon or what comes before it ends a property. -/
theorem not_isNamePart_of_colon (h : IsTrivia gap) (more : List Char) :
    ∀ c ∈ (gap ++ ':' :: more).head?, isNamePart c = false := by
  cases h with
  | nil =>
    rintro c ⟨⟩
    decide
  | blank hc _ =>
    rintro c ⟨⟩
    refine Bool.eq_false_iff.2 fun h => ?_
    have := isSpace_bounds hc
    have := isNamePart_bounds h
    omega
  | comment =>
    rintro c ⟨⟩
    decide

theorem reads_property_lexeme (s : Store) (d : Declaration) (hgap : IsTrivia gap)
    (more : List Char) :
    (lexeme property).Reads s (d.property ++ gap) (':' :: more)
      (.text (String.ofList d.property)) :=
  reads_lexeme .nil hgap (solid_cons (by decide) (by decide) more) (d.property_solid _)
    (reads_property d (not_isNamePart_of_colon hgap more))

theorem reads_value_lexeme (s : Store) (d : Declaration) {pad : List Char}
    (hpad : ∀ b ∈ pad, Text.isSpace b = true) (hvalue : ValueText (d.value ++ pad))
    (hlead : IsTrivia lead) (htrail : IsTrivia trail) (hsolid : Solid left)
    (hends : ∀ c ∈ left.head?, c ∈ valueEnds) :
    (lexeme value).Reads s (lead ++ (d.value ++ pad ++ trail)) left
      (.text (String.ofList d.value)) := by
  refine reads_lexeme_blanks hlead htrail hsolid (d.value_solid hvalue)
    fun blanks rest hblanks hrest => ?_
  rw [List.append_assoc]
  refine reads_value d ?_ (List.forall_mem_append.2 ⟨hpad, hblanks⟩) (hrest.imp_left ?_)
  · rw [← List.append_assoc]
    exact hvalue.append (valueText_blanks hblanks)
  · rintro rfl
    exact hends

/-- The mark of importance, if there is one, and what is there in its place if not. What begins
there ends the value. -/
theorem reads_mark (s : Store) (d : Declaration)
    (h : Trailed (d.mark.map Declaration.markToken).toList text) (hleft : EndsDeclaration left) :
    (∃ w : Value, (Rule.optional (lexeme important)).Reads s text left w ∧
      (!w.isUnit) = d.mark.isSome) ∧
    (∀ c ∈ (text ++ left).head?, c ∈ valueEnds) ∧ Solid (text ++ left) := by
  have hblank := d.mark_blank
  cases hmark : d.mark with
  | none =>
    rw [hmark] at h
    cases h
    have hmisses : important.Misses s left := misses_important fun c hc => by
      rintro rfl
      rcases hleft with hleft | hleft
      all_goals
        rw [hleft] at hc
        cases hc
    exact ⟨⟨.unit, reads_optional_none (misses_lexeme hleft.solid hmisses), rfl⟩,
      hleft.mem_valueEnds, hleft.solid⟩
  | some blanks =>
    rw [hmark] at h hblank
    obtain ⟨gap, rfl, hgap⟩ := h.single_inv
    have hsolid (more : List Char) : Solid (Declaration.markToken blanks ++ more) :=
      solid_cons (by decide) (by decide) _
    have hread : (lexeme important).Reads s (Declaration.markToken blanks ++ gap) left _ :=
      reads_lexeme .nil hgap hleft.solid (hsolid (gap ++ left))
        (reads_important (hblank blanks rfl) _)
    refine ⟨⟨_, reads_optional hread, rfl⟩, ?_, by rw [List.append_assoc]; exact hsolid _⟩
    rintro c ⟨⟩
    decide

theorem declarationMap_kept (d : Declaration) {w : Value} (hw : (!w.isUnit) = d.mark.isSome) :
    declarationMap (.list (Value.kept
      [.text (String.ofList d.property), .text ":", .text (String.ofList d.value), w])) =
    .ok d.tree := by
  have hmarks : (Value.kept [w]).isEmpty = !d.mark.isSome := by
    rw [← hw, Bool.not_not]
    cases hunit : w.isUnit <;> simp [Value.kept, hunit]
  rw [show Value.kept [.text (String.ofList d.property), .text ":",
    .text (String.ofList d.value), w] =
    .text (String.ofList d.property) :: .text ":" :: .text (String.ofList d.value) ::
      Value.kept [w] from rfl]
  simp only [declarationMap, Value.toList, hmarks, Bool.not_not, String.toList_ofList,
    Declaration.tree]

theorem reads_declaration (s : Store) {d : Declaration} (h : d.Laid text)
    (hleft : EndsDeclaration left) : declaration.Reads s text left d.tree := by
  obtain ⟨pad, hpad, hvalue, h⟩ := h
  obtain - | @⟨gap₁, _, _, _, hgap₁, h⟩ := h
  obtain - | @⟨gap₂, _, _, _, hgap₂, h⟩ := h
  obtain - | @⟨gap₃, mark, _, _, hgap₃, h⟩ := h
  obtain ⟨⟨w, hmark, hw⟩, hends, hsolid⟩ := reads_mark s d h hleft
  have hvalue := reads_value_lexeme s d hpad hvalue hgap₂ hgap₃ hsolid hends
  -- Which rule reads which part of the text.
  have htext : d.property ++ (gap₁ ++ ([':'] ++ (gap₂ ++ (d.value ++ pad ++ (gap₃ ++ mark))))) =
      (d.property ++ gap₁) ++ ([':'] ++ ((gap₂ ++ (d.value ++ pad ++ gap₃)) ++ mark)) := by
    simp only [List.append_assoc]
  rw [htext]
  have hrest : ReadsAll s [literal ":", lexeme value, Rule.optional (lexeme important)]
      ([':'] ++ ((gap₂ ++ (d.value ++ pad ++ gap₃)) ++ mark)) left
        [.text ":", .text (String.ofList d.value), w] :=
    .cons (reads_literal s ":" _) (.cons hvalue (.last hmark))
  exact reads_mapped (reads_sequence (.cons (reads_property_lexeme s d hgap₁ _) hrest))
    (declarationMap_kept d hw)

theorem misses_declaration (s : Store) (hleft : left.head? = some '\x7d') :
    declaration.Misses s left := by
  have hsolid : Solid left := EndsDeclaration.solid (.inr hleft)
  refine misses_mapped (misses_sequence (misses_lexeme hsolid (misses_property fun c hc => ?_)) _) _
  rw [hleft] at hc
  obtain rfl := Option.some.inj hc
  decide

theorem LaidFurther.ends {ds : List Declaration} {closed : Bool} (h : LaidFurther ds closed text)
    (hleft : left.head? = some '\x7d') : EndsDeclaration (text ++ left) := by
  cases h with
  | done => exact .inr hleft
  | closed | next => exact .inl rfl

/-- A declaration begins with its property. -/
theorem Declaration.Laid.solid {d : Declaration} (h : d.Laid text) (left : List Char) :
    text ≠ [] ∧ Solid (text ++ left) := by
  obtain ⟨pad, _, _, h⟩ := h
  obtain - | ⟨_, _, _⟩ := h
  refine ⟨fun h => ?_, by rw [List.append_assoc]; exact d.property_solid _⟩
  obtain ⟨c, cs, heq, _⟩ := d.property_head
  rw [heq] at h
  cases h

theorem reads_semicolon (s : Store) (hgap : IsTrivia gap) (hleft : Solid left) :
    (lexeme (literal ";")).Reads s (';' :: gap) left (.text ";") :=
  reads_punctuation s (by decide) (by decide) rfl hgap hleft

theorem continues_declarations (s : Store) {ds : List Declaration} {closed : Bool}
    (h : LaidFurther ds closed text) (hleft : left.head? = some '\x7d') :
    Continues s declaration (lexeme (literal ";")) true text left (ds.map Declaration.tree) := by
  have hsolid : Solid left := EndsDeclaration.solid (.inr hleft)
  induction h with
  | done => exact .stop (misses_lexeme hsolid (misses_punctuation rfl (by decide) hleft))
  | closed hgap => exact .trail rfl (reads_semicolon s hgap hsolid) (misses_declaration s hleft)
  | @next d ds closed gap text more hgap hd h ih =>
    obtain ⟨hne, hfront⟩ := hd.solid (more ++ left)
    exact .next hne (reads_semicolon s hgap hfront) (reads_declaration s hd (h.ends hleft)) ih

theorem reads_declarations (s : Store) {ds : List Declaration} {closed : Bool}
    (h : LaidBody ds closed text) (hleft : left.head? = some '\x7d') :
    declarations.Reads s text left (.list (ds.map Declaration.tree)) := by
  cases h with
  | empty =>
    exact reads_mapped (reads_optional_none (misses_separated (misses_declaration s hleft) _ _)) rfl
  | @begun d ds _ _ _ hd h =>
    have hread :=
      reads_separated (reads_declaration s hd (h.ends hleft)) (continues_declarations s h hleft)
    rw [← List.map_cons (f := Declaration.tree), Value.kept_map fun _ => rfl] at hread
    exact reads_mapped (reads_optional hread) rfl

theorem LaidBody.solid {ds : List Declaration} {closed : Bool} (h : LaidBody ds closed text)
    (hleft : left.head? = some '\x7d') : Solid (text ++ left) := by
  cases h with
  | empty => exact solid_of_head hleft (by decide) (by decide)
  | begun hd _ =>
    rw [List.append_assoc]
    exact (hd.solid _).2

theorem reads_block (s : Store) {ds : List Declaration} {closed : Bool} {body : List Char}
    (hgap : IsTrivia gap) (h : LaidBody ds closed body) (htrail : IsTrivia trail)
    (hleft : Solid left) :
    block.Reads s ('\x7b' :: gap ++ (body ++ '\x7d' :: trail)) left
      (.list (ds.map Declaration.tree)) := by
  have hclose : ('\x7d' :: trail ++ left).head? = some '\x7d' := rfl
  exact reads_enclosed (reads_punctuation s (by decide) (by decide) rfl hgap (h.solid hclose))
    (reads_declarations s h hclose) (reads_punctuation s (by decide) (by decide) rfl htrail hleft)

/-- The tokens behind a selector, up to the block. -/
def furtherSelectors (sels : List Selector) : List (List Char) :=
  (sels.map fun sel => [sel.text]).flatMap fun tokens => [','] :: tokens

theorem reads_selector_lexeme (s : Store) (sel : Selector) (hlead : IsTrivia lead)
    (htrail : IsTrivia trail) (hleft : left.head? = some ',' ∨ left.head? = some '\x7b') :
    (lexeme selector).Reads s (lead ++ (sel.text ++ trail)) left sel.tree := by
  have hends : Solid left ∧ ∀ c ∈ left.head?, c ∈ selectorEnds := by
    rcases hleft with hleft | hleft
    all_goals exact ⟨solid_of_head hleft (by decide) (by decide), by simp [hleft, selectorEnds]⟩
  refine reads_lexeme_blanks hlead htrail hends.1 sel.solid fun blanks rest hblanks hrest => ?_
  refine reads_selector sel hblanks ?_
  rcases hrest with rfl | ⟨more, rfl⟩
  · exact hends.2
  · rintro c ⟨⟩
    decide

theorem further_head {sels : List Selector} (h : Trailed (furtherSelectors sels) text)
    (hleft : left.head? = some '\x7b') :
    (text ++ left).head? = some ',' ∨ (text ++ left).head? = some '\x7b' := by
  cases sels with
  | nil =>
    cases h
    exact .inr hleft
  | cons sel sels =>
    cases h
    exact .inl rfl

theorem continues_selectors (s : Store) {sels : List Selector}
    (h : Trailed (furtherSelectors sels) text) (hleft : left.head? = some '\x7b') :
    Continues s (lexeme selector) .comma false text left (sels.map Selector.tree) := by
  induction sels generalizing text with
  | nil =>
    cases h
    exact .stop (misses_punctuation rfl (by decide) hleft)
  | cons sel sels ih =>
    obtain - | @⟨gap, _, _, _, hgap, h⟩ := h
    obtain - | @⟨gap', rest, _, _, hgap', h⟩ := h
    have htext : [','] ++ (gap ++ (sel.text ++ (gap' ++ rest))) =
        [','] ++ ((gap ++ (sel.text ++ gap')) ++ rest) := by
      simp only [List.append_assoc]
    have hne : gap ++ (sel.text ++ gap') ≠ [] := by simp [sel.nonempty]
    rw [htext]
    exact .next hne (reads_literal s "," _)
      (reads_selector_lexeme s sel hgap hgap' (further_head h hleft)) (ih h)

theorem reads_selectors (s : Store) (r : StyleRule)
    (h : Trailed r.selectorTokens text) (hleft : left.head? = some '\x7b') :
    selectors.Reads s text left (.list (r.selectors.map Selector.tree)) := by
  obtain ⟨sel, sels, heq⟩ := List.exists_cons_of_ne_nil r.selectors_ne
  rw [StyleRule.selectorTokens, heq] at h
  rw [heq]
  obtain - | @⟨gap, rest, _, _, hgap, h⟩ := h
  have hread := reads_separated (reads_selector_lexeme s sel .nil hgap (further_head h hleft))
    (continues_selectors s h hleft)
  rw [← List.map_cons (f := Selector.tree), Value.kept_map fun _ => rfl, List.nil_append,
    List.append_assoc] at hread
  exact reads_label hread "selector"

theorem reads_styleRule (s : Store) {r : StyleRule} (h : r.Laid text) (hleft : Solid left) :
    styleRule.Reads s text left r.tree := by
  obtain ⟨hfront, hgap, hbody, htrail⟩ := h
  exact reads_mapped (reads_sequence (.cons (reads_selectors s r hfront rfl)
    (.last (reads_block s hgap hbody htrail hleft)))) rfl

/-- A rule begins with a selector. -/
theorem StyleRule.Laid.solid {r : StyleRule} (h : r.Laid text) (left : List Char) :
    text ≠ [] ∧ Solid (text ++ left) := by
  obtain ⟨hfront, _, _, _⟩ := h
  obtain ⟨sel, sels, heq⟩ := List.exists_cons_of_ne_nil r.selectors_ne
  rw [StyleRule.selectorTokens, heq] at hfront
  obtain - | ⟨_, _, _⟩ := hfront
  refine ⟨by simp [sel.nonempty], ?_⟩
  simp only [List.append_assoc]
  exact sel.solid _

theorem misses_styleRule (s : Store) : styleRule.Misses s [] :=
  misses_mapped (misses_sequence (misses_label (misses_separated
    (misses_lexeme solid_nil (misses_selector_nil s)) .comma false) "selector") _) _

theorem LaidRules.solid {sheet : List StyleRule} (h : LaidRules sheet text) :
    Solid (text ++ []) := by
  cases h with
  | nil => exact solid_nil
  | cons hr _ =>
    rw [List.append_assoc]
    exact (hr.solid _).2

theorem repeats_styleRule (s : Store) {sheet : List StyleRule} (h : LaidRules sheet text) :
    Repeats s styleRule text [] (sheet.map StyleRule.tree) := by
  induction h with
  | nil => exact .stop (misses_styleRule s)
  | cons hr h ih => exact .step (hr.solid []).1 (reads_styleRule s hr h.solid) ih

theorem reads_laid (s : Store) {sheet : List StyleRule} (h : Laid sheet text) :
    stylesheet.Reads s text [] (tree sheet) := by
  obtain ⟨gap, rest, rfl, hgap, hrest⟩ := h
  have hread := reads_repeated (repeats_styleRule s hrest)
  rw [Value.kept_map fun _ => rfl] at hread
  have hall := reads_enclosed (reads_trivia s hgap hrest.solid) hread (reads_endOfInput s)
  rwa [List.append_nil] at hall

theorem reads_stylesheet (s : Store) {sheet : List StyleRule}
    (hplain : ∀ r ∈ sheet, ∀ d ∈ r.declarations, IsPlain d.value) (h : Writes (tokens sheet) text) :
    stylesheet.Reads s text [] (tree sheet) := reads_laid s (laid_of_writes hplain h)

/-- A sheet is parsed into its tree, whatever white space and comments set its tokens apart. -/
theorem parse_written {sheet : List StyleRule}
    (hplain : ∀ r ∈ sheet, ∀ d ∈ r.declarations, IsPlain d.value) {text : String}
    (h : Writes (tokens sheet) text.toList) : parse text .standard = some (.ok (tree sheet)) := by
  have hs : Store.Composed .empty := Store.composed_empty
  have hr : stylesheet.Composed := by decide
  have hlate : ∀ q ∈ stylesheet.parts, q.isLate = false := by decide
  have hdepth : ∀ d, Limits.standard.maxDepth = some d → stylesheet.height ≤ d := by
    rintro d ⟨⟩
    decide
  rw [parse, (hr.parse_of_height hs hlate rfl hdepth text).2]
  exact hr.parseAll_of_reads hs (reads_stylesheet .empty hplain h)

/-- Two selectors, one declaration with a semicolon behind it, and a rule that declares nothing. -/
def sampleSheet : List StyleRule := [
  { selectors :=
      [⟨"a".toList, by decide, by decide, by simp⟩, ⟨"b c".toList, by decide, by decide, by simp⟩]
    declarations :=
      [⟨"Color".toList, "url(x/y)".toList, some [], by decide, by decide, by decide, by simp⟩]
    closed := true
    selectors_ne := List.cons_ne_nil _ _
    declarations_ne := fun _ => List.cons_ne_nil _ _ },
  { selectors := [⟨"p".toList, by decide, by decide, by simp⟩]
    declarations := []
    closed := false
    selectors_ne := List.cons_ne_nil _ _
    declarations_ne := nofun }]

def sampleText : String := "/* 1 */a ,b c/**/\x7bColor: url(x/y) /* 2 */!important;\x7d p\x7b \x7d"

theorem parse_written_sample : (∀ r ∈ sampleSheet, ∀ d ∈ r.declarations, IsPlain d.value) ∧
    Writes (tokens sampleSheet) sampleText.toList ∧ parse sampleText .standard = some (.ok (.list [
      .map [("selectors", .list [.text "a", .text "b c"]), ("declarations", .list [
        .map [("property", .text "color"), ("value", .text "url(x/y)"),
          ("important", .bool true)]])],
      .map [("selectors", .list [.text "p"]), ("declarations", .list [])]])) := by
  have hplain : ∀ r ∈ sampleSheet, ∀ d ∈ r.declarations, IsPlain d.value := by decide
  have hblank : IsTrivia [' '] := .blank (by decide) .nil
  have hboth : IsTrivia (' ' :: commentText " 2 ".toList) :=
    .blank (by decide) (isTrivia_comment _ (by decide))
  have hwrites : Writes (tokens sampleSheet) sampleText.toList :=
    ⟨commentText " 1 ".toList, _, by decide, isTrivia_comment _ (by decide),
      .cons _ hblank (.cons _ .nil (.cons _
      (isTrivia_comment [] (by decide))
        (.cons _ .nil (.cons _ .nil (.cons _ hblank (.cons _ hboth (.cons _ .nil
        (.cons _ .nil (.cons _ hblank (.cons _ .nil (.cons _ hblank (.cons _ .nil .nil))))))))))))⟩
  exact ⟨hplain, hwrites, parse_written hplain hwrites⟩

end Stylesheet

end Descent
