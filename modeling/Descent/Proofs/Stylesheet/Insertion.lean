import Descent.Proofs.Stylesheet.Comments
import Descent.Proofs.Stylesheet.Soundness

namespace Descent

namespace Stylesheet

variable {front back text gap : List Char}

/-- The place is inside a mark of importance, before its word. -/
def InMark (front back : List Char) : Prop := ∃ lead blanks blanks' trail,
  front = lead ++ '!' :: blanks ∧ back = blanks' ++ ("important".toList ++ trail) ∧
    (∀ b ∈ blanks, Text.isSpace b = true) ∧ ∀ b ∈ blanks', Text.isSpace b = true

theorem InMark.within (h : InMark front back) (lead trail : List Char) :
    InMark (lead ++ front) (back ++ trail) := by
  obtain ⟨lead', blanks, blanks', trail', rfl, rfl, hblanks, hblanks'⟩ := h
  refine ⟨lead ++ lead', blanks, blanks', trail' ++ trail, ?_, ?_, hblanks, hblanks'⟩
  · rw [List.append_assoc]
  · simp only [List.append_assoc]

/-- What becomes of a part of a sheet with a blank in it. `laid` says how such a part is laid out,
and `tree` what it stands for, which is `v` as long as the blank is there. -/
inductive Respaced {α β : Type} (laid : α → List Char → Prop) (tree : α → β) (v : β)
    (front back : List Char) : Prop
  /-- In place of the blank there may be any trivia. -/
  | room (h : ∀ gap, IsTrivia gap → ∃ a, laid a (front ++ (gap ++ back)) ∧ tree a = v)
  /-- Without the blank it stands for something else. -/
  | changed {a : α} (h : laid a (front ++ back)) (hne : tree a ≠ v)
  | mark (h : InMark front back)

/-- A blank in a part is a blank in the whole. -/
theorem Respaced.within {α β α' β' : Type} {laid : α → List Char → Prop} {tree : α → β} {v : β}
    {laid' : α' → List Char → Prop} {tree' : α' → β'} (h : Respaced laid tree v front back)
    (whole : β → β')
    (hwhole : Function.Injective whole) (lead trail : List Char)
    (hlaid : ∀ a text, laid a text →
      ∃ a', laid' a' (lead ++ (text ++ trail)) ∧ tree' a' = whole (tree a)) :
    Respaced laid' tree' (whole v) (lead ++ front) (back ++ trail) := by
  cases h with
  | room h =>
    refine .room fun gap hgap => ?_
    obtain ⟨a, ha, htree⟩ := h gap hgap
    obtain ⟨a', ha', htree'⟩ := hlaid a _ ha
    simp only [List.append_assoc] at ha' ⊢
    exact ⟨a', ha', by rw [htree', htree]⟩
  | @changed a h hne =>
    obtain ⟨a', ha', htree'⟩ := hlaid a _ h
    have hlaid' : laid' a' (lead ++ front ++ (back ++ trail)) := by
      simpa only [List.append_assoc] using ha'
    refine .changed hlaid' ?_
    rw [htree']
    exact fun heq => hne (hwhole heq)
  | mark h => exact .mark (h.within lead trail)

/-- The same at the end of the whole. -/
theorem Respaced.behind {α β α' β' : Type} {laid : α → List Char → Prop} {tree : α → β} {v : β}
    {laid' : α' → List Char → Prop} {tree' : α' → β'} (h : Respaced laid tree v front back)
    (whole : β → β')
    (hwhole : Function.Injective whole) (lead : List Char)
    (hlaid : ∀ a text, laid a text → ∃ a', laid' a' (lead ++ text) ∧ tree' a' = whole (tree a)) :
    Respaced laid' tree' (whole v) (lead ++ front) back := by
  have hwithin : Respaced laid' tree' (whole v) (lead ++ front) (back ++ []) :=
    h.within whole hwhole lead [] (by simpa using hlaid)
  rwa [List.append_nil] at hwithin

/-- A text without one of its blanks is another text. It is still trimmed, where the blank is at
neither end. -/
theorem trimmed_remove (h : Text.Trimmed (front ++ ' ' :: back)) :
    Text.Trimmed (front ++ back) ∧ front ++ back ≠ [] ∧ front ++ back ≠ front ++ ' ' :: back := by
  have hfront : front ≠ [] := by
    rintro rfl
    exact absurd (h.first ' ' rfl) (by decide)
  have hback : back ≠ [] := by
    rintro rfl
    exact absurd (h.last ' ' List.getLast?_concat) (by decide)
  refine ⟨⟨?_, ?_⟩, by simp [hfront], by simp⟩
  · have hfirst := h.first
    rwa [List.head?_append_of_ne_nil _ hfront] at hfirst ⊢
  · have hlast := h.last
    obtain ⟨c, back, rfl⟩ := List.exists_cons_of_ne_nil hback
    rw [List.getLast?_append_of_ne_nil _ (List.cons_ne_nil _ _), List.getLast?_cons_cons] at hlast
    rwa [List.getLast?_append_of_ne_nil _ hback]

theorem Selector.closed (sel : Selector) : Closed sel.text := by
  refine closed_of_forall_ne fun c hc => ?_
  rintro rfl
  exact sel.clear '/' hc (by decide)

/-- Selectors with commas between them. -/
def LaidSelectors (sels : List Selector) (text : List Char) : Prop :=
  sels ≠ [] ∧ Trailed (joined [','] (sels.map fun sel => [sel.text])) text

theorem closed_selector_tokens (sels : List Selector) :
    ∀ t ∈ joined [','] (sels.map fun sel => [sel.text]), Closed t := by
  intro t ht
  cases sels with
  | nil => simp [joined] at ht
  | cons sel sels =>
    simp only [joined, List.map_cons, List.mem_append, List.mem_flatMap, List.mem_map,
      List.mem_cons, List.not_mem_nil, or_false] at ht
    rcases ht with rfl | ⟨_, ⟨other, _, rfl⟩, rfl | ht⟩
    · exact sel.closed
    · decide
    · rw [List.mem_singleton.1 ht]
      exact other.closed

theorem exists_further_selector {sels : List Selector} {before after : List (List Char)}
    {token : List Char} (h : furtherSelectors sels = before ++ token :: after)
    (htoken : token ≠ [',']) :
    ∃ sels₁ sel sels₂, sels = sels₁ ++ sel :: sels₂ ∧ sel.text = token ∧
      ∀ other : Selector, furtherSelectors (sels₁ ++ other :: sels₂) =
        before ++ other.text :: after := by
  have hcons (sel : Selector) (sels : List Selector) :
      furtherSelectors (sel :: sels) = [','] :: sel.text :: furtherSelectors sels := rfl
  induction sels generalizing before with
  | nil => simp [furtherSelectors] at h
  | cons sel sels ih =>
    rw [hcons] at h
    rcases List.cons_eq_append_iff.1 h with ⟨rfl, hcomma⟩ | ⟨before, rfl, hrest⟩
    · exact absurd (List.cons.inj hcomma).1 htoken
    · rcases List.cons_eq_append_iff.1 hrest with ⟨rfl, hsel⟩ | ⟨before, rfl, hmore⟩
      · obtain ⟨rfl, rfl⟩ := List.cons.inj hsel
        exact ⟨[], sel, sels, rfl, rfl, fun other => hcons other sels⟩
      · obtain ⟨sels₁, found, sels₂, rfl, hfound, hother⟩ := ih hmore
        refine ⟨sel :: sels₁, found, sels₂, rfl, hfound, fun other => ?_⟩
        rw [List.cons_append, hcons, hother]
        rfl

/-- A token of a list of selectors that is no comma is one of them, and another may stand in its
place. -/
theorem exists_selector {sels : List Selector} {before after : List (List Char)} {token : List Char}
    (h : joined [','] (sels.map fun sel => [sel.text]) = before ++ token :: after)
    (htoken : token ≠ [',']) :
    ∃ sels₁ sel sels₂, sels = sels₁ ++ sel :: sels₂ ∧ sel.text = token ∧ ∀ other : Selector,
      joined [','] ((sels₁ ++ other :: sels₂).map fun sel => [sel.text]) =
        before ++ other.text :: after := by
  have hcons (sel : Selector) (sels : List Selector) :
      joined [','] ((sel :: sels).map fun sel => [sel.text]) = sel.text :: furtherSelectors sels :=
        rfl
  cases sels with
  | nil => simp [joined] at h
  | cons sel sels =>
    rw [hcons] at h
    rcases List.cons_eq_append_iff.1 h with ⟨rfl, hsel⟩ | ⟨before, rfl, hrest⟩
    · obtain ⟨rfl, rfl⟩ := List.cons.inj hsel
      exact ⟨[], sel, sels, rfl, rfl, fun other => hcons other sels⟩
    · obtain ⟨sels₁, found, sels₂, rfl, hfound, hother⟩ := exists_further_selector hrest htoken
      refine ⟨sel :: sels₁, found, sels₂, rfl, hfound, fun other => ?_⟩
      rw [List.cons_append, hcons, hother]
      rfl

theorem respaced_selectors {sels : List Selector} (h : LaidSelectors sels (front ++ ' ' :: back))
    (hfront : Closed front) :
    Respaced LaidSelectors (List.map Selector.tree) (sels.map Selector.tree) front back := by
  cases h.2.blankIn (closed_selector_tokens sels) hfront with
  | between hroom => exact .room fun gap hgap => ⟨sels, ⟨h.1, hroom gap hgap⟩, rfl⟩
  | @inside before after left right lead trail htokens hlead htrail _ hinside =>
    have hcomma : left ++ ' ' :: right ≠ [','] := by
      intro heq
      have hmem : ' ' ∈ [','] := by simp [← heq]
      simp at hmem
    obtain ⟨sels₁, sel, sels₂, rfl, hsel, hother⟩ := exists_selector htokens hcomma
    obtain ⟨htrimmed, hne, hchanged⟩ := trimmed_remove (hsel ▸ sel.trimmed)
    have hclear : ∀ c ∈ left ++ right, c ∉ ['\x7b', '\x7d', ',', ';', '/'] := by
      intro c hc
      refine sel.clear c ?_
      rw [hsel]
      rcases List.mem_append.1 hc with hc | hc
      · exact List.mem_append_left _ hc
      · exact List.mem_append_right _ (List.mem_cons_of_mem ' ' hc)
    let other : Selector := ⟨left ++ right, hne, htrimmed, hclear⟩
    have hlaid : LaidSelectors (sels₁ ++ other :: sels₂) (front ++ back) := by
      refine ⟨by simp, ?_⟩
      rw [hother]
      simpa [other, hlead, htrail] using hinside other.text [] .nil
    refine .changed hlaid ?_
    have htree : other.tree ≠ sel.tree := by
      rw [Selector.tree, Selector.tree, hsel]
      exact fun heq => hchanged (String.ofList_injective (Value.text.inj heq))
    simpa using htree

theorem Declaration.closed (d : Declaration) {pad : List Char}
    (hvalue : ValueText (d.value ++ pad)) : ∀ t ∈ d.paddedTokens pad, Closed t := by
  have hproperty : Closed d.property := by
    refine closed_of_forall_ne fun c hc => ?_
    rintro rfl
    exact absurd (isNamePart_of_isProperty d.property_ok '/' hc) (by decide)
  have hmark : ∀ blanks ∈ d.mark, Closed (markToken blanks) := by
    intro blanks hblanks
    refine closed_of_forall_ne fun c hc => ?_
    rintro rfl
    simp only [markToken, List.mem_cons, List.mem_append] at hc
    rcases hc with hc | hc | hc
    · simp at hc
    · exact absurd (d.mark_blank blanks hblanks '/' hc) (by decide)
    · simp at hc
  rw [paddedTokens, List.forall_mem_append, List.forall_mem_cons, List.forall_mem_cons,
    List.forall_mem_singleton]
  refine ⟨⟨hproperty, by decide, closed_of_valueText hvalue⟩, ?_⟩
  simpa using hmark

/-- A blank in a mark of importance stands before its word. -/
theorem inMark_of_markToken {blanks left right : List Char}
    (hblanks : ∀ b ∈ blanks, Text.isSpace b = true)
    (h : left ++ ' ' :: right = Declaration.markToken blanks) : InMark left right := by
  rcases List.append_eq_cons_iff.1 h with ⟨_, hcons⟩ | ⟨rest, rfl, hrest⟩
  · simp at hcons
  · rcases blank_cases hrest.symm with ⟨more, rfl, rfl⟩ | ⟨more, _, hword⟩
    · rw [List.forall_mem_append, List.forall_mem_cons] at hblanks
      exact ⟨[], rest, more, [], rfl, by rw [List.append_nil], hblanks.1, hblanks.2.2⟩
    · have hmem : ' ' ∈ "important".toList := by simp [hword]
      simp at hmem

/-- Of the tokens of a declaration, only its value and its mark of importance can hold a blank. -/
theorem Declaration.blank_token (d : Declaration) {pad token : List Char}
    {before after : List (List Char)} (h : d.paddedTokens pad = before ++ token :: after)
    (hblank : ' ' ∈ token) :
    (before = [d.property, [':']] ∧ token = d.value ++ pad ∧
      after = (d.mark.map markToken).toList) ∨
    ∃ blanks ∈ d.mark, token = markToken blanks := by
  have hproperty : ' ' ∉ d.property :=
    fun hmem => absurd (isNamePart_of_isProperty d.property_ok ' ' hmem) (by decide)
  have hcolon : ' ' ∉ [':'] := by decide
  rw [paddedTokens, List.cons_append, List.cons_append, List.singleton_append] at h
  rcases before with _ | ⟨a, _ | ⟨b, _ | ⟨c, before⟩⟩⟩
  · rw [(List.cons.inj h).1] at hproperty
    exact absurd hblank hproperty
  · rw [(List.cons.inj (List.cons.inj h).2).1] at hcolon
    exact absurd hblank hcolon
  · simp only [List.cons_append, List.nil_append, List.cons.injEq] at h
    obtain ⟨rfl, rfl, rfl, rfl⟩ := h
    exact .inl ⟨rfl, rfl, rfl⟩
  · simp only [List.cons_append, List.cons.injEq] at h
    have hmem : token ∈ (d.mark.map markToken).toList := by simp [h.2.2.2]
    obtain ⟨blanks, hblanks, rfl⟩ := Option.mem_map.1 (Option.mem_toList.1 hmem)
    exact .inr ⟨blanks, hblanks, rfl⟩

theorem respaced_declaration {d : Declaration} (h : d.Laid (front ++ ' ' :: back))
    (hfront : Closed front) : Respaced Declaration.Laid Declaration.tree d.tree front back := by
  obtain ⟨pad, hpad, hvalue, h⟩ := h
  cases h.blankIn (d.closed hvalue) hfront with
  | between hroom => exact .room fun gap hgap => ⟨d, ⟨pad, hpad, hvalue, hroom gap hgap⟩, rfl⟩
  | @inside before after left right lead trail htokens hlead htrail hleft hinside =>
    have hblank : ' ' ∈ left ++ ' ' :: right := by simp
    rcases d.blank_token htokens hblank with ⟨rfl, htoken, rfl⟩ | ⟨blanks, hblanks, htoken⟩
    · rw [← htoken] at hvalue
      obtain ⟨hvalueLeft, hvalueRight⟩ := valueText_cut hvalue hleft
      rcases blank_cases htoken with ⟨rest, hd, rfl⟩ | ⟨rest, rfl, rfl⟩
      · -- Inside of the value.
        obtain ⟨htrimmed, hne, hchanged⟩ := trimmed_remove (hd ▸ d.value_trimmed)
        let other : Declaration :=
          ⟨d.property, left ++ rest, d.mark, d.property_ok, hne, htrimmed, d.mark_blank⟩
        have hother : ValueText (other.value ++ pad) := by
          rw [List.append_assoc]
          exact hvalueLeft.append hvalueRight
        have hlaid : other.Laid (front ++ back) := by
          have htokens := hinside (other.value ++ pad) [] .nil
          have htext : lead ++ (other.value ++ pad ++ ([] ++ trail)) = front ++ back := by
            simp [other, hlead, htrail]
          exact ⟨pad, hpad, hother, htext ▸ htokens⟩
        have htree : other.tree ≠ d.tree := by
          intro heq
          simp only [Declaration.tree, Value.map.injEq, List.cons.injEq, Prod.mk.injEq,
            Value.text.injEq] at heq
          exact hchanged ((String.ofList_injective heq.2.1.2).trans hd)
        exact .changed hlaid htree
      · -- In the blanks behind it.
        rw [List.forall_mem_append, List.forall_mem_cons] at hpad
        refine .room fun gap hgap => ⟨d, ⟨rest, hpad.1, hvalueLeft, ?_⟩, rfl⟩
        have hright : IsTrivia (right ++ []) := isTrivia_append_blanks hpad.2.2 .nil
        rw [List.append_nil] at hright
        have hlaid := hinside (d.value ++ rest) (gap ++ right) (hgap.append hright)
        simpa only [hlead, htrail, Declaration.paddedTokens, List.append_assoc, List.cons_append,
          List.nil_append] using hlaid
    · have hmark := inMark_of_markToken (d.mark_blank blanks hblanks) htoken
      rw [hlead, htrail]
      exact .mark (hmark.within lead trail)

theorem Declaration.Laid.closed {d : Declaration} (h : d.Laid text) : Closed text := by
  obtain ⟨pad, _, hvalue, h⟩ := h
  exact h.closed (d.closed hvalue)

theorem closed_of_laidFurther {ds : List Declaration} {closed : Bool}
    (h : LaidFurther ds closed text) : Closed text := by
  induction h with
  | done => exact closed_nil
  | closed hgap => exact (closed_cons (by decide)).2 hgap.closed
  | next hgap hd _ ih =>
    rw [List.cons_append, closed_cons (by decide), closed_append hgap.closed,
      closed_append hd.closed]
    exact ih

theorem respaced_further {ds : List Declaration} {closed : Bool}
    (h : LaidFurther ds closed (front ++ ' ' :: back)) (hfront : Closed front) :
    Respaced (fun ds => LaidFurther ds closed) (List.map Declaration.tree) (ds.map Declaration.tree)
      front back := by
  generalize htext : front ++ ' ' :: back = text at h
  induction h generalizing front with
  | done => simp at htext
  | closed hgap =>
    obtain ⟨rest, rfl, hroom⟩ := blank_behind_mark (by decide) hgap htext hfront
    exact .room fun more hmore => ⟨[], .closed (hroom more hmore), rfl⟩
  | @next d ds closed gap text more hgap hd h ih =>
    rcases blank_cases htext with ⟨rest, hmark, rfl⟩ | ⟨rest, rfl, hrest⟩
    · obtain ⟨rest, rfl, hroom⟩ := blank_behind_mark (by decide) hgap hmark.symm hfront
      refine .room fun other hother => ⟨d :: ds, ?_, rfl⟩
      have hlaid := LaidFurther.next (hroom other hother) hd h
      simpa only [List.append_assoc, List.cons_append] using hlaid
    · have hlead : Closed (';' :: gap) := (closed_cons (by decide)).2 hgap.closed
      have hclosed : Closed rest := (closed_append hlead).1 hfront
      rcases blank_cases hrest.symm with ⟨right, rfl, rfl⟩ | ⟨later, rfl, rfl⟩
      · refine (respaced_declaration hd hclosed).within (· :: ds.map Declaration.tree) ?_
          (';' :: gap) more ?_
        · exact fun _ _ heq => (List.cons.inj heq).1
        · exact fun d text hd => ⟨d :: ds, .next hgap hd h, rfl⟩
      · have hlater := ih ((closed_append hd.closed).1 hclosed) rfl
        rw [← List.append_assoc]
        refine hlater.behind (d.tree :: ·) ?_ (';' :: gap ++ text) ?_
        · exact fun _ _ heq => (List.cons.inj heq).2
        · intro ds more h
          refine ⟨d :: ds, ?_, rfl⟩
          rw [List.append_assoc]
          exact .next hgap hd h

theorem closed_of_laidBody {ds : List Declaration} {closed : Bool} (h : LaidBody ds closed text) :
    Closed text := by
  cases h with
  | empty => exact closed_nil
  | begun hd h => exact (closed_append hd.closed).2 (closed_of_laidFurther h)

theorem LaidBody.nonempty {ds : List Declaration} {closed : Bool} (h : LaidBody ds closed text)
    (hclosed : closed = true) : ds ≠ [] := by
  cases h with
  | empty => simp at hclosed
  | begun => simp

theorem respaced_body {ds : List Declaration} {closed : Bool}
    (h : LaidBody ds closed (front ++ ' ' :: back)) (hfront : Closed front) :
    Respaced (fun ds => LaidBody ds closed) (List.map Declaration.tree) (ds.map Declaration.tree)
      front back := by
  generalize htext : front ++ ' ' :: back = text at h
  cases h with
  | empty => simp at htext
  | @begun d ds _ text more hd h =>
    rcases blank_cases htext with ⟨right, rfl, rfl⟩ | ⟨rest, rfl, rfl⟩
    · refine (respaced_declaration hd hfront).within (· :: ds.map Declaration.tree) ?_ [] more ?_
      · exact fun _ _ heq => (List.cons.inj heq).1
      · intro d text hd
        have hlaid : LaidBody (d :: ds) closed (text ++ more) := .begun hd h
        exact ⟨d :: ds, hlaid, rfl⟩
    · have hrest := respaced_further h ((closed_append hd.closed).1 hfront)
      refine hrest.behind (d.tree :: ·) ?_ text ?_
      · exact fun _ _ heq => (List.cons.inj heq).2
      · exact fun ds more h => ⟨d :: ds, .begun hd h, rfl⟩

theorem StyleRule.Laid.closed {r : StyleRule} (h : r.Laid text) : Closed text := by
  obtain ⟨hfront, hgap, hbody, hgap'⟩ := h
  have hselectors := hfront.closed (closed_selector_tokens r.selectors)
  rw [closed_append hselectors, List.cons_append, closed_cons (by decide),
    closed_append hgap.closed, closed_append (closed_of_laidBody hbody), closed_cons (by decide)]
  exact hgap'.closed

theorem respaced_rule {r : StyleRule} (h : r.Laid (front ++ ' ' :: back)) (hfront : Closed front) :
    Respaced StyleRule.Laid StyleRule.tree r.tree front back := by
  generalize htext : front ++ ' ' :: back = text at h
  obtain @⟨sels, gap, body, gap', hsels, hgap, hbody, hgap'⟩ := h
  rcases blank_cases htext with ⟨right, rfl, rfl⟩ | ⟨rest, rfl, hrest⟩
  · have hselectors := respaced_selectors ⟨r.selectors_ne, hsels⟩ hfront
    let whole (vs : List Value) : Value :=
      .map [("selectors", .list vs), ("declarations", .list (r.declarations.map Declaration.tree))]
    have hwhole : Function.Injective whole := fun _ _ heq => by simpa [whole] using heq
    refine hselectors.within whole hwhole [] _ fun sels text h => ?_
    exact ⟨⟨sels, r.declarations, r.closed, h.1, r.declarations_ne⟩, ⟨h.2, hgap, hbody, hgap'⟩, rfl⟩
  have hselectors := hsels.closed (closed_selector_tokens r.selectors)
  have hclosed : Closed rest := (closed_append hselectors).1 hfront
  rcases blank_cases hrest.symm with ⟨right, hmark, rfl⟩ | ⟨later, rfl, hlater⟩
  · obtain ⟨rest, rfl, hroom⟩ := blank_behind_mark (by decide) hgap hmark.symm hclosed
    refine .room fun more hmore => ⟨r, ?_, rfl⟩
    have hlaid : r.Laid _ := ⟨hsels, hroom more hmore, hbody, hgap'⟩
    simpa only [List.append_assoc, List.cons_append] using hlaid
  have hopen : Closed ('\x7b' :: gap) := (closed_cons (by decide)).2 hgap.closed
  have hclosed : Closed later := (closed_append hopen).1 hclosed
  rcases blank_cases hlater.symm with ⟨right, rfl, rfl⟩ | ⟨last, rfl, hlast⟩
  · let whole (vs : List Value) : Value :=
      .map [("selectors", .list (r.selectors.map Selector.tree)), ("declarations", .list vs)]
    have hwhole : Function.Injective whole := fun _ _ heq => by simpa [whole] using heq
    rw [← List.append_assoc]
    refine (respaced_body hbody hclosed).within whole hwhole (sels ++ '\x7b' :: gap)
      ('\x7d' :: gap') fun ds text h => ?_
    refine ⟨⟨r.selectors, ds, r.closed, r.selectors_ne, h.nonempty⟩, ?_, rfl⟩
    rw [List.append_assoc]
    exact ⟨hsels, hgap, h, hgap'⟩
  · obtain ⟨rest, rfl, hroom⟩ := blank_behind_mark (by decide) hgap' hlast.symm
      ((closed_append (closed_of_laidBody hbody)).1 hclosed)
    refine .room fun more hmore => ⟨r, ?_, rfl⟩
    have hlaid : r.Laid _ := ⟨hsels, hgap, hbody, hroom more hmore⟩
    simpa only [List.append_assoc, List.cons_append] using hlaid

theorem respaced_rules {sheet : List StyleRule} (h : LaidRules sheet (front ++ ' ' :: back))
    (hfront : Closed front) :
    Respaced LaidRules (List.map StyleRule.tree) (sheet.map StyleRule.tree) front back := by
  generalize htext : front ++ ' ' :: back = text at h
  induction h generalizing front with
  | nil => simp at htext
  | @cons r sheet text more hr h ih =>
    rcases blank_cases htext with ⟨right, rfl, rfl⟩ | ⟨rest, rfl, hrest⟩
    · refine (respaced_rule hr hfront).within (· :: sheet.map StyleRule.tree) ?_ [] more ?_
      · exact fun _ _ heq => (List.cons.inj heq).1
      · intro r text hr
        have hlaid : LaidRules (r :: sheet) (text ++ more) := .cons hr h
        exact ⟨r :: sheet, hlaid, rfl⟩
    · refine (ih ((closed_append hr.closed).1 hfront) hrest.symm).behind (r.tree :: ·) ?_ text ?_
      · exact fun _ _ heq => (List.cons.inj heq).2
      · exact fun sheet more h => ⟨r :: sheet, .cons hr h, rfl⟩

theorem respaced_sheet {sheet : List StyleRule} (h : Laid sheet (front ++ ' ' :: back))
    (hfront : Closed front) : Respaced Laid tree (tree sheet) front back := by
  obtain ⟨gap, rest, htext, hgap, hrules⟩ := h
  rcases blank_cases htext with ⟨right, rfl, rfl⟩ | ⟨later, rfl, rfl⟩
  · refine .room fun more hmore => ⟨sheet, ⟨front ++ (more ++ right), rest, ?_, ?_, hrules⟩, rfl⟩
    · simp only [List.append_assoc]
    · exact hgap.replace hfront hmore
  · have hlater := respaced_rules hrules ((closed_append hgap.closed).1 hfront)
    refine hlater.behind Value.list (fun _ _ heq => Value.list.inj heq) gap ?_
    exact fun sheet text h => ⟨sheet, ⟨gap, text, rfl, hgap, h⟩, rfl⟩

/-- Where a blank may be put into a text without a change to what is parsed, a comment may be put as
well, if it is neither in a mark of importance nor behind a slash that makes a pair with what
follows it. -/
theorem parse_comment_inserted {front back body : String} {v : Value}
    (h : parse (front ++ back) .standard = some (.ok v))
    (hblank : parse (front ++ " " ++ back) .standard = some (.ok v)) (hfront : Closed front.toList)
    (hmark : ¬ InMark front.toList back.toList) (hbody : ¬ ['*', '/'] <:+: body.toList) :
    parse (front ++ "/*" ++ body ++ "*/" ++ back) .standard = some (.ok v) := by
  obtain ⟨sheet, hlaid, rfl⟩ := parse_ok_iff.1 hblank
  have htext : (front ++ " " ++ back).toList = front.toList ++ ' ' :: back.toList := by simp
  rw [htext] at hlaid
  cases respaced_sheet hlaid hfront with
  | room hroom =>
    obtain ⟨other, hother, htree⟩ := hroom (commentText body.toList) (isTrivia_comment _ hbody)
    refine parse_ok_iff.2 ⟨other, ?_, htree.symm⟩
    simpa [commentText] using hother
  | @changed other hother hne =>
    have hother : parse (front ++ back) .standard = some (.ok (tree other)) :=
      parse_ok_iff.2 ⟨other, by simpa using hother, rfl⟩
    rw [hother] at h
    exact absurd (Except.ok.inj (Option.some.inj h)) hne
  | mark h => exact absurd h hmark

/-- A comment before a mark of importance, behind a value that ends in a slash and its blank. -/
theorem parse_comment_inserted_sample :
    ∃ v, parse ("a\x7bb:c/ " ++ "!important;\x7d") .standard = some (.ok v) ∧
    parse ("a\x7bb:c/ " ++ " " ++ "!important;\x7d") .standard = some (.ok v) ∧
      Closed "a\x7bb:c/ ".toList ∧
    ¬ InMark "a\x7bb:c/ ".toList "!important;\x7d".toList ∧ ¬ ['*', '/'] <:+: "/*!".toList ∧
    parse ("a\x7bb:c/ " ++ "/*" ++ "/*!" ++ "*/" ++ "!important;\x7d") .standard =
      some (.ok v) := by
  have hplain : parse ("a\x7bb:c/ " ++ "!important;\x7d") .standard = some (.ok (.list [.map [
      ("selectors", .list [.text "a"]), ("declarations", .list [
        .map [("property", .text "b"), ("value", .text "c/"), ("important", .bool true)]])]])) :=
          rfl
  have hblank : parse ("a\x7bb:c/ " ++ " " ++ "!important;\x7d") .standard =
      some (.ok (.list [.map [ ("selectors", .list [.text "a"]), ("declarations", .list [
        .map [("property", .text "b"), ("value", .text "c/"), ("important", .bool true)]])]])) :=
          rfl
  have hfront : Closed "a\x7bb:c/ ".toList := by decide
  have hmark : ¬ InMark "a\x7bb:c/ ".toList "!important;\x7d".toList := by
    rintro ⟨lead, blanks, _, _, hsplit, _⟩
    have hmem : '!' ∈ "a\x7bb:c/ ".toList := by simp [hsplit]
    simp at hmem
  have hbody : ¬ ['*', '/'] <:+: "/*!".toList := by decide
  exact ⟨_, hplain, hblank, hfront, hmark, hbody,
    parse_comment_inserted hplain hblank hfront hmark hbody⟩

/-- In a mark of importance there may be a blank and no comment. Behind a slash that takes a blank
into the value there may be another, and a comment becomes a part of the value. -/
theorem parse_comment_refused :
    (∃ v, parse ("a\x7bb:c!" ++ "important\x7d") .standard = some (.ok v) ∧
      parse ("a\x7bb:c!" ++ " " ++ "important\x7d") .standard = some (.ok v) ∧
      ∃ position expected found, parse ("a\x7bb:c!" ++ "/**/" ++ "important\x7d") .standard =
        some (.error (.mismatch position expected found))) ∧
    ∃ v w, parse ("a\x7bb:c/" ++ " \x7d") .standard = some (.ok v) ∧
      parse ("a\x7bb:c/" ++ " " ++ " \x7d") .standard = some (.ok v) ∧
      parse ("a\x7bb:c/" ++ "/**/" ++ " \x7d") .standard = some (.ok w) ∧ v ≠ w := by
  let sheet (value : String) (important : Bool) : Value := .list [.map [
    ("selectors", .list [.text "a"]), ("declarations", .list [
      .map [("property", .text "b"), ("value", .text value), ("important", .bool important)]])]]
  refine ⟨⟨sheet "c" true, rfl, rfl, _, _, _, rfl⟩, sheet "c/" false, sheet "c//**/" false,
    rfl, rfl, rfl, ?_⟩
  simp [sheet]

end Stylesheet

end Descent
