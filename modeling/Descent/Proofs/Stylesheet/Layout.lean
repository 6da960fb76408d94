import Descent.Proofs.Stylesheet.Patterns

namespace Descent.Stylesheet

variable {gap text more : List Char} {token : List Char} {tokens : List (List Char)}

theorem isTrivia_append_blanks {blanks : List Char} (hblanks : ∀ b ∈ blanks, Text.isSpace b = true)
    (h : IsTrivia gap) : IsTrivia (blanks ++ gap) := by
  induction blanks with
  | nil => exact h
  | cons b blanks ih =>
    rw [List.forall_mem_cons] at hblanks
    exact .blank hblanks.1 (ih hblanks.2)

theorem IsTrivia.append {lead : List Char} (hlead : IsTrivia lead) (h : IsTrivia gap) :
    IsTrivia (lead ++ gap) := by
  induction hlead with
  | nil => exact h
  | blank hc _ ih => exact .blank hc ih
  | comment hbody _ ih =>
    rw [List.append_assoc]
    exact .comment hbody ih

theorem trailed_single (token : List Char) (hgap : IsTrivia gap) :
    Trailed [token] (token ++ gap) := by
  have h : Trailed [token] (token ++ (gap ++ [])) := .cons token hgap .nil
  rwa [List.append_nil] at h

theorem Trailed.append {us : List (List Char)} (h : Trailed tokens text) (hmore : Trailed us more) :
    Trailed (tokens ++ us) (text ++ more) := by
  induction h with
  | nil => exact hmore
  | cons token hgap _ ih =>
    simp only [List.append_assoc]
    exact .cons token hgap ih

/-- Blanks at the end of a token are as good as blanks behind it. -/
theorem Trailed.unpad {pad : List Char} (hpad : ∀ b ∈ pad, Text.isSpace b = true)
    (h : Trailed ((token ++ pad) :: tokens) text) : Trailed (token :: tokens) text := by
  obtain - | ⟨_, hgap, h⟩ := h
  rw [List.append_assoc, ← List.append_assoc pad]
  exact .cons token (isTrivia_append_blanks hpad hgap) h

/-- The tokens of a declaration, where the blanks behind its value count as a part of it. -/
def Declaration.paddedTokens (d : Declaration) (pad : List Char) : List (List Char) :=
  [d.property, [':'], d.value ++ pad] ++ (d.mark.map Declaration.markToken).toList

/-- The declaration as it is read. A slash at the end of its value has a blank behind it. -/
def Declaration.Laid (d : Declaration) (text : List Char) : Prop :=
  ∃ pad, (∀ b ∈ pad, Text.isSpace b = true) ∧ ValueText (d.value ++ pad) ∧
    Trailed (d.paddedTokens pad) text

theorem Declaration.Laid.trailed {d : Declaration} (h : d.Laid text) : Trailed d.tokens text := by
  obtain ⟨pad, hpad, _, h⟩ := h
  obtain - | ⟨_, hgap₁, h⟩ := h
  obtain - | ⟨_, hgap₂, h⟩ := h
  exact .cons _ hgap₁ (.cons _ hgap₂ (h.unpad hpad))

theorem Declaration.laid_of_trailed {d : Declaration} (hplain : IsPlain d.value)
    (h : Trailed d.tokens text) : d.Laid text := by
  refine ⟨[], List.forall_mem_nil _, ?_, ?_⟩
  · rw [List.append_nil]
    exact hplain.valueText
  · rw [paddedTokens, List.append_nil]
    exact h

/-- The tokens behind a declaration, up to the end of the block. -/
def furtherTokens (ds : List Declaration) (closed : Bool) : List (List Char) :=
  ((ds.map Declaration.tokens).flatMap fun tokens => [';'] :: tokens) ++
    if closed then [[';']] else []

theorem furtherTokens_cons (d : Declaration) (ds : List Declaration) (closed : Bool) :
    furtherTokens (d :: ds) closed = [';'] :: (d.tokens ++ furtherTokens ds closed) := by
  simp only [furtherTokens, List.map_cons, List.flatMap_cons, List.cons_append, List.append_assoc]

/-- What stands behind a declaration: others, each behind a semicolon, and at the end a semicolon if
the list is closed. -/
inductive LaidFurther : List Declaration → Bool → List Char → Prop
  | done : LaidFurther [] false []
  | closed {gap : List Char} (hgap : IsTrivia gap) : LaidFurther [] true (';' :: gap)
  | next {d : Declaration} {ds : List Declaration} {closed : Bool} {gap text more : List Char}
    (hgap : IsTrivia gap)
    (hd : d.Laid text) (h : LaidFurther ds closed more) :
    LaidFurther (d :: ds) closed (';' :: gap ++ (text ++ more))

theorem LaidFurther.trailed {ds : List Declaration} {closed : Bool}
    (h : LaidFurther ds closed text) : Trailed (furtherTokens ds closed) text := by
  induction h with
  | done => exact .nil
  | closed hgap => exact trailed_single [';'] hgap
  | next hgap hd _ ih =>
    rw [furtherTokens_cons]
    exact .cons [';'] hgap (hd.trailed.append ih)

theorem laidFurther_of_trailed {ds : List Declaration} {closed : Bool}
    (hplain : ∀ d ∈ ds, IsPlain d.value) (h : Trailed (furtherTokens ds closed) text) :
    LaidFurther ds closed text := by
  induction ds generalizing text with
  | nil =>
    cases closed with
    | false =>
      cases h
      exact .done
    | true =>
      obtain ⟨gap, rfl, hgap⟩ := h.single_inv
      exact .closed hgap
  | cons d ds ih =>
    rw [furtherTokens_cons] at h
    obtain - | @⟨gap, _, _, _, hgap, h⟩ := h
    obtain ⟨front, back, rfl, hfront, hback⟩ := h.append_inv
    rw [List.forall_mem_cons] at hplain
    rw [show [';'] ++ (gap ++ (front ++ back)) = ';' :: gap ++ (front ++ back) from rfl]
    exact .next hgap (Declaration.laid_of_trailed hplain.1 hfront) (ih hplain.2 hback)

theorem LaidFurther.declaration {ds : List Declaration} {closed : Bool}
    (h : LaidFurther ds closed text) : ∀ d ∈ ds, ∃ text, d.Laid text := by
  induction h with
  | done | closed => exact List.forall_mem_nil _
  | next _ hd _ ih => exact List.forall_mem_cons.2 ⟨⟨_, hd⟩, ih⟩

/-- All of the text between the braces, but for the trivia behind the first of them. -/
inductive LaidBody : List Declaration → Bool → List Char → Prop
  | empty : LaidBody [] false []
  | begun {d : Declaration} {ds : List Declaration} {closed : Bool} {text more : List Char}
    (hd : d.Laid text) (h : LaidFurther ds closed more) : LaidBody (d :: ds) closed (text ++ more)

theorem bodyTokens_nil {r : StyleRule} (h : r.declarations = []) : r.bodyTokens = [] := by
  have hopen : r.closed = false := Bool.eq_false_iff.2 fun hclosed => r.declarations_ne hclosed h
  rw [StyleRule.bodyTokens, h, hopen]
  rfl

theorem bodyTokens_cons {r : StyleRule} {d : Declaration} {ds : List Declaration}
    (h : r.declarations = d :: ds) : r.bodyTokens = d.tokens ++ furtherTokens ds r.closed := by
  rw [StyleRule.bodyTokens, h, List.map_cons, joined, List.append_assoc]
  rfl

theorem LaidBody.trailed {r : StyleRule} (h : LaidBody r.declarations r.closed text) :
    Trailed r.bodyTokens text := by
  cases hds : r.declarations with
  | nil =>
    rw [hds] at h
    rw [bodyTokens_nil hds]
    generalize r.closed = closed at h
    cases h
    exact .nil
  | cons d ds =>
    rw [hds] at h
    rw [bodyTokens_cons hds]
    obtain - | ⟨hd, h⟩ := h
    exact hd.trailed.append h.trailed

theorem laidBody_of_trailed {r : StyleRule} (hplain : ∀ d ∈ r.declarations, IsPlain d.value)
    (h : Trailed r.bodyTokens text) : LaidBody r.declarations r.closed text := by
  cases hds : r.declarations with
  | nil =>
    have hopen : r.closed = false :=
      Bool.eq_false_iff.2 fun hclosed => r.declarations_ne hclosed hds
    rw [bodyTokens_nil hds] at h
    cases h
    rw [hopen]
    exact .empty
  | cons d ds =>
    rw [bodyTokens_cons hds] at h
    rw [hds, List.forall_mem_cons] at hplain
    obtain ⟨front, back, rfl, hfront, hback⟩ := h.append_inv
    exact .begun (Declaration.laid_of_trailed hplain.1 hfront)
      (laidFurther_of_trailed hplain.2 hback)

theorem LaidBody.declaration {ds : List Declaration} {closed : Bool} (h : LaidBody ds closed text) :
    ∀ d ∈ ds, ∃ text, d.Laid text := by
  cases h with
  | empty => exact List.forall_mem_nil _
  | begun hd h => exact List.forall_mem_cons.2 ⟨⟨_, hd⟩, h.declaration⟩

inductive StyleRule.Laid (r : StyleRule) : List Char → Prop
  | mk {front gap body gap' : List Char} (hfront : Trailed r.selectorTokens front)
    (hgap : IsTrivia gap) (hbody : LaidBody r.declarations r.closed body) (hgap' : IsTrivia gap') :
    r.Laid (front ++ ('\x7b' :: gap ++ (body ++ '\x7d' :: gap')))

theorem StyleRule.Laid.trailed {r : StyleRule} (h : r.Laid text) : Trailed r.tokens text := by
  obtain ⟨hfront, hgap, hbody, hgap'⟩ := h
  exact hfront.append (.cons ['\x7b'] hgap (hbody.trailed.append (trailed_single ['\x7d'] hgap')))

theorem StyleRule.laid_of_trailed {r : StyleRule} (hplain : ∀ d ∈ r.declarations, IsPlain d.value)
    (h : Trailed r.tokens text) : r.Laid text := by
  obtain ⟨front, back, rfl, hfront, hback⟩ := h.append_inv
  obtain - | ⟨_, hgap, hback⟩ := hback
  obtain ⟨body, last, rfl, hbody, hlast⟩ := hback.append_inv
  obtain ⟨gap', rfl, hgap'⟩ := hlast.single_inv
  exact ⟨hfront, hgap, laidBody_of_trailed hplain hbody, hgap'⟩

inductive LaidRules : List StyleRule → List Char → Prop
  | nil : LaidRules [] []
  | cons {r : StyleRule} {sheet : List StyleRule} {text more : List Char} (hr : r.Laid text)
    (h : LaidRules sheet more) : LaidRules (r :: sheet) (text ++ more)

/-- The sheet as it is read, with trivia before its first rule. -/
def Laid (sheet : List StyleRule) (text : List Char) : Prop :=
  ∃ gap rest, text = gap ++ rest ∧ IsTrivia gap ∧ LaidRules sheet rest

/-- Each declaration is laid out in some part of the text. -/
theorem Laid.declaration {sheet : List StyleRule} (h : Laid sheet text) :
    ∀ r ∈ sheet, ∀ d ∈ r.declarations, ∃ text, d.Laid text := by
  obtain ⟨_, _, -, -, hrules⟩ := h
  induction hrules with
  | nil => exact List.forall_mem_nil _
  | cons hr _ ih =>
    obtain ⟨_, _, hbody, _⟩ := hr
    exact List.forall_mem_cons.2 ⟨hbody.declaration, ih⟩

theorem LaidRules.trailed {sheet : List StyleRule} (h : LaidRules sheet text) :
    Trailed (Stylesheet.tokens sheet) text := by
  induction h with
  | nil => exact .nil
  | cons hr _ ih => exact hr.trailed.append ih

theorem Laid.writes {sheet : List StyleRule} (h : Laid sheet text) :
    Writes (Stylesheet.tokens sheet) text := by
  obtain ⟨gap, rest, rfl, hgap, hrest⟩ := h
  exact ⟨gap, rest, rfl, hgap, hrest.trailed⟩

theorem laid_of_writes {sheet : List StyleRule}
    (hplain : ∀ r ∈ sheet, ∀ d ∈ r.declarations, IsPlain d.value)
    (h : Writes (Stylesheet.tokens sheet) text) : Laid sheet text := by
  obtain ⟨gap, rest, rfl, hgap, hrest⟩ := h
  refine ⟨gap, rest, rfl, hgap, ?_⟩
  induction sheet generalizing rest with
  | nil =>
    cases hrest
    exact .nil
  | cons r sheet ih =>
    obtain ⟨front, back, rfl, hfront, hback⟩ := hrest.append_inv
    rw [List.forall_mem_cons] at hplain
    exact .cons (StyleRule.laid_of_trailed hplain.1 hfront) (ih hplain.2 back hback)

end Descent.Stylesheet
