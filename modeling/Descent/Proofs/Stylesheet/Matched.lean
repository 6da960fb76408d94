import Mathlib.Data.List.Induction
import Descent.Proofs.Answers
import Descent.Proofs.Stylesheet.Layout

namespace Descent

/-- A text that does not begin with white space is one without white space at its ends, and blanks
behind it. -/
theorem Text.exists_trimmed {text : List Char} (hne : text ≠ [])
    (hfirst : ∀ c ∈ text.head?, isSpace c = false) :
    ∃ cs pad, text = cs ++ pad ∧ cs ≠ [] ∧ Trimmed cs ∧ ∀ b ∈ pad, isSpace b = true := by
  induction text using List.reverseRecOn with
  | nil => exact absurd rfl hne
  | append_singleton text c ih =>
    cases hc : isSpace c with
    | false =>
      refine ⟨text ++ [c], [], (List.append_nil _).symm, hne, ⟨hfirst, ?_⟩, List.forall_mem_nil _⟩
      intro a ha
      rw [List.getLast?_concat] at ha
      exact Option.some.inj ha ▸ hc
    | true =>
      have htext : text ≠ [] := by
        rintro rfl
        rw [hfirst c rfl] at hc
        cases hc
      obtain ⟨cs, pad, rfl, hcs, htrimmed, hpad⟩ := ih htext fun a ha => by
        refine hfirst a ?_
        rwa [List.head?_append_of_ne_nil _ htext]
      refine ⟨cs, pad ++ [c], List.append_assoc .., hcs, htrimmed, ?_⟩
      exact List.forall_mem_append.2 ⟨hpad, List.forall_mem_singleton.2 hc⟩

/-- Where a pair of characters occurs, it occurs for a first time. -/
theorem Text.exists_first_pair {u v : Char} {text : List Char} (h : [u, v] <:+: text) :
    ∃ body left, text = body ++ u :: v :: left ∧ ¬ [u, v] <:+: body := by
  induction text with
  | nil => cases List.eq_nil_of_infix_nil h
  | cons c cs ih =>
    by_cases hprefix : [u, v] <+: c :: cs
    · obtain ⟨left, hleft⟩ := hprefix
      exact ⟨[], left, hleft.symm, fun hnil => nomatch List.eq_nil_of_infix_nil hnil⟩
    · obtain ⟨body, left, rfl, hbody⟩ := ih ((List.infix_cons_iff.1 h).resolve_left hprefix)
      refine ⟨c :: body, left, rfl, fun hinfix => ?_⟩
      rcases List.infix_cons_iff.1 hinfix with hfirst | hlater
      · exact hprefix (hfirst.trans (List.prefix_append (c :: body) _))
      · exact hbody hlater

namespace Stylesheet

open Rule

variable {s : Store} {r : Rule} {text gap left : List Char}
  {post : List Char → List Char → Value → Prop} {hw : (Regex.parse? "\\s+".toList).isSome = true}

/-- Neither white space nor a complete comment begins here. -/
structure Bare (text : List Char) : Prop where
  blank : ∀ c ∈ text.head?, Text.isSpace c = false
  comment : ∀ body, ¬ ['*', '/'] <:+: body → ¬ commentText body <+: text

theorem Bare.eq_nil (h : Bare (gap ++ left)) (hgap : IsTrivia gap) : gap = [] := by
  cases hgap with
  | nil => rfl
  | @blank c cs hc _ =>
    have hblank := h.blank c rfl
    rw [hc] at hblank
    cases hblank
  | @comment body cs hbody _ =>
    rw [List.append_assoc] at h
    exact absurd (List.prefix_append _ _) (h.comment body hbody)

theorem answers_spaces (s : Store) (text : List Char) :
    (regex "\\s+" hw).Answers s text fun taken _ _ =>
    taken ≠ [] ∧ ∀ b ∈ taken, Text.isSpace b = true := by
  obtain ⟨taken, left, rfl, h⟩ := CharSet.exists_spans .space text
  by_cases hne : taken = []
  · rw [hne]
    exact .inl (misses_spaces h.stops hw)
  · exact .inr ⟨taken, left, _, rfl, reads_spaces h.all hne h.stops hw, hne, h.all⟩

theorem answers_comment (s : Store) (text : List Char) : comment.Answers s text fun taken _ _ =>
    ∃ body, taken = commentText body ∧ ¬ ['*', '/'] <:+: body := by
  by_cases hopen : ['/', '*'] <+: text
  · obtain ⟨rest, rfl⟩ := hopen
    by_cases hclose : ['*', '/'] <:+: rest
    · obtain ⟨body, left, rfl, hbody⟩ := Text.exists_first_pair hclose
      have htext : ['/', '*'] ++ (body ++ '*' :: '/' :: left) = commentText body ++ left := by
        simp [commentText]
      exact .inr ⟨_, left, _, htext, reads_comment hbody left, body, rfl, hbody⟩
    · exact .inl (misses_regex comment_written
        (Regex.matchLength?_bracket_open contains_anyChar '/' '*' hclose) _)
  · exact .inl (misses_comment hopen)

/-- Where trivia stops, none is left. -/
theorem bare_of_misses (h : (choice [regex "\\s+" hw, comment]).Misses s left) : Bare left where
  blank c hc := by
    by_contra hblank
    obtain ⟨taken, rest, rfl, hspans⟩ := CharSet.exists_spans .space left
    have hne : taken ≠ [] := by
      rintro rfl
      exact hblank (hspans.stops c hc)
    exact (reads_choice (List.forall_mem_nil _)
      (reads_spaces hspans.all hne hspans.stops hw)).not_misses h
  comment body hbody hprefix := by
    obtain ⟨rest, rfl⟩ := hprefix
    have hspaces : (regex "\\s+" hw).Misses s (commentText body ++ rest) := by
      refine misses_spaces ?_ hw
      rintro c ⟨⟩
      decide
    exact (reads_choice (List.forall_mem_singleton.2 hspaces) (reads_comment hbody rest)).not_misses
      h

theorem answers_trivia (s : Store) (text : List Char) :
    trivia.Answers s text fun gap left _ => IsTrivia gap ∧ Bare left := by
  refine answers_discard (answers_repeated (fun _ => True)
    (fun gap left _ => IsTrivia gap ∧ Bare left) ?_ ?_ trivial fun _ _ _ h => h)
  · exact fun left _ hmisses => ⟨.nil, bare_of_misses hmisses⟩
  · intro text _
    refine answers_choice (List.forall_mem_cons.2 ⟨?_, List.forall_mem_singleton.2 ?_⟩)
    · refine (answers_spaces s text).mono fun taken rest v _ ⟨hne, hblanks⟩ => ⟨hne, trivial, ?_⟩
      exact fun more left vs _ h => ⟨isTrivia_append_blanks hblanks h.1, h.2⟩
    · refine (answers_comment s text).mono fun taken rest v _ ⟨body, htaken, hbody⟩ =>
        ⟨?_, trivial, ?_⟩
      · rw [htaken]
        exact List.cons_ne_nil _ _
      · rw [htaken]
        exact fun more left vs _ h => ⟨.comment hbody h.1, h.2⟩

theorem answers_lexeme (h : ∀ lead rest, text = lead ++ rest → IsTrivia lead → Bare rest →
      r.Answers s rest fun taken rest v =>
        ∀ trail left, rest = trail ++ left → IsTrivia trail → Bare left →
        post (lead ++ (taken ++ trail)) left v) : (lexeme r).Answers s text post := by
  refine answers_enclosed ((answers_trivia s text).mono fun lead rest _ htext ⟨hlead, hbare⟩ => ?_)
  refine (h lead rest htext hlead hbare).mono fun taken rest v _ hpost => ?_
  exact (answers_trivia s rest).mono fun trail left _ hrest ⟨htrail, hleft⟩ =>
    hpost trail left hrest htrail hleft

/-- Where nothing is left to skip, a token begins at once. -/
theorem answers_lexeme_bare (hbare : Bare text)
    (h : r.Answers s text fun taken rest v => ∀ trail left,
      rest = trail ++ left → IsTrivia trail → Bare left → post (taken ++ trail) left v) :
    (lexeme r).Answers s text post := by
  refine answers_lexeme fun lead rest htext hlead _ => ?_
  subst htext
  obtain rfl := hbare.eq_nil hlead
  exact h

theorem answers_punctuation {c : Char} {mark : String} (hmark : mark.toList = [c])
    (hbare : Bare text) :
    (lexeme (literal mark)).Answers s text fun taken left _ =>
      Bare left ∧ ∃ gap, taken = c :: gap ∧ IsTrivia gap := by
  refine answers_lexeme_bare hbare
    (answers_literal s mark fun rest _ trail left _ htrail hleft => ⟨hleft, trail, ?_, htrail⟩)
  rw [hmark]
  rfl

theorem answers_trimmed (hblank : ∀ c ∈ text.head?, Text.isSpace c = false)
    (h : r.Answers s text fun taken left v =>
      taken ≠ [] ∧ v = .text (String.ofList taken) ∧
        ∀ cs pad, taken = cs ++ pad → cs ≠ [] → Text.Trimmed cs →
        (∀ b ∈ pad, Text.isSpace b = true) →
        post taken left (.text (String.ofList cs))) : (trimmed r).Answers s text post := by
  refine answers_mapped (h.mono fun taken left v htext ⟨hne, hv, hpost⟩ => ?_)
  obtain ⟨cs, pad, rfl, hcs, htrimmed, hpad⟩ := Text.exists_trimmed hne fun c hc => by
    refine hblank c ?_
    rwa [htext, List.head?_append_of_ne_nil _ hne]
  refine ⟨_, ?_, hpost cs pad rfl hcs htrimmed hpad⟩
  simp only [hv, Value.asText?, Option.getD_some, String.toList_ofList,
    htrimmed.trim_append hcs hpad]

theorem answers_selector (s : Store) (text : List Char) : selector.Answers s text fun taken _ v =>
    ∃ (sel : Selector) (pad : List Char), taken = sel.text ++ pad ∧
      (∀ b ∈ pad, Text.isSpace b = true) ∧ v = sel.tree := by
  by_cases hfirst : ∃ c ∈ text.head?, selectorFirst.contains c = true
  · obtain ⟨c, hc, hfirst⟩ := hfirst
    obtain ⟨cs, rfl⟩ := List.head?_eq_some_iff.1 hc
    obtain ⟨taken, left, rfl, hspans⟩ := CharSet.exists_spans selectorRest cs
    obtain ⟨hspace, hends⟩ := contains_selectorFirst.1 hfirst
    refine answers_trimmed (by rintro a ⟨⟩; exact hspace) (.inr ⟨c :: taken, left, _, rfl,
      reads_regex selector_written (Regex.matchLength?_run hfirst hspans) _,
        List.cons_ne_nil _ _, rfl, ?_⟩)
    intro cs pad htaken hne htrimmed hpad
    refine ⟨⟨cs, hne, htrimmed, fun a ha => ?_⟩, pad, htaken, hpad, rfl⟩
    have ha : a ∈ c :: taken := by
      rw [htaken]
      exact List.mem_append_left pad ha
    rcases List.mem_cons.1 ha with rfl | ha
    · exact hends
    · exact CharSet.contains_compl_adding.1 (hspans.all a ha)
  · have hnone (c : Char) (hc : c ∈ text.head?) : selectorFirst.contains c = false :=
      Bool.eq_false_iff.2 fun h => hfirst ⟨c, hc, h⟩
    exact .inl (misses_mapped (misses_regex selector_written (Regex.matchLength?_seq_none hnone) _)
      _)

theorem isName_cons {c : Char} {cs : List Char} (hc : nameStart.contains c = true)
    (hcs : ∀ a ∈ cs, namePart.contains a = true) : isName (c :: cs) = true :=
  isName_iff.2 ⟨c, cs, rfl, contains_nameStart.1 hc, fun a ha => contains_namePart.1 (hcs a ha)⟩

theorem answers_property (s : Store) (text : List Char) : property.Answers s text fun taken _ v =>
    isProperty taken = true ∧ v = .text (String.ofList taken) := by
  refine answers_label ?_ _
  have hmisses (h : ∀ prev, (Regex.signed (.single '-') nameStart namePart).matchLength? prev
      text = none) :
      (regex "-?[_a-zA-Z][_a-zA-Z0-9-]*" (by decide)).Misses s text :=
        misses_regex property_written h _
  cases text with
  | nil => exact .inl (hmisses (Regex.matchLength?_signed_none (by rintro c ⟨⟩)))
  | cons c cs =>
    cases hc : nameStart.contains c with
    | true =>
      obtain ⟨taken, left, rfl, hspans⟩ := CharSet.exists_spans namePart cs
      have hne : c ≠ '-' := by
        rintro rfl
        cases hc
      refine .inr ⟨c :: taken, left, _, rfl, reads_regex property_written
        (Regex.matchLength?_unsigned (CharSet.contains_single_ne hne) hc hspans) _, ?_, rfl⟩
      exact isProperty_iff.2 (.inl (isName_cons hc hspans.all))
    | false =>
      by_cases hsign : c = '-'
      · have hself := CharSet.contains_single.2 hsign
        by_cases hfirst : ∃ a ∈ cs.head?, nameStart.contains a = true
        · obtain ⟨a, ha, hfirst⟩ := hfirst
          obtain ⟨rest, rfl⟩ := List.head?_eq_some_iff.1 ha
          obtain ⟨taken, left, rfl, hspans⟩ := CharSet.exists_spans namePart rest
          refine .inr ⟨c :: a :: taken, left, _, rfl, reads_regex property_written
            (Regex.matchLength?_signed hself hc hfirst hspans) _, ?_, rfl⟩
          exact isProperty_iff.2 (.inr ⟨_, by rw [hsign], isName_cons hfirst hspans.all⟩)
        · refine .inl (hmisses (Regex.matchLength?_signed_bare hself hc fun a ha => ?_))
          exact Bool.eq_false_iff.2 fun h => hfirst ⟨a, ha, h⟩
      · refine .inl (hmisses (Regex.matchLength?_signed_none ?_))
        rintro a ⟨⟩
        exact ⟨CharSet.contains_single_ne hsign, hc⟩

theorem answers_value (s : Store) (hblank : ∀ c ∈ text.head?, Text.isSpace c = false) :
    value.Answers s text fun taken _ v => ∃ cs pad, taken = cs ++ pad ∧ cs ≠ [] ∧ Text.Trimmed cs ∧
      (∀ b ∈ pad, Text.isSpace b = true) ∧ ValueText (cs ++ pad) ∧
        v = .text (String.ofList cs) := by
  refine answers_label (answers_trimmed hblank ?_) _
  obtain ⟨taken, left, rfl, hpaired, hstops⟩ :=
    Regex.exists_paired valueOne (.single '/') valueSecond text
  by_cases hne : taken = []
  · rw [hne]
    exact .inl (misses_regex value_written (Regex.matchLength?_paired_none hstops) _)
  · refine .inr ⟨taken, left, _, rfl, reads_regex value_written
      (Regex.matchLength?_paired valueOne_slash hpaired hstops hne) _, hne, rfl, ?_⟩
    intro cs pad htaken hcs htrimmed hpad
    exact ⟨cs, pad, htaken, hcs, htrimmed, hpad, htaken ▸ hpaired, rfl⟩

theorem answers_important (s : Store) (text : List Char) : important.Answers s text fun taken _ v =>
    ∃ blanks, taken = Declaration.markToken blanks ∧ (∀ b ∈ blanks, Text.isSpace b = true) ∧
      v.isUnit = false := by
  by_cases hmark : ∃ blanks left, (∀ b ∈ blanks, Text.isSpace b = true) ∧
    text = Declaration.markToken blanks ++ left
  · obtain ⟨blanks, left, hblanks, rfl⟩ := hmark
    exact .inr ⟨_, left, _, rfl, reads_important hblanks left, blanks, rfl, hblanks, rfl⟩
  · refine .inl (misses_regex important_written (Regex.matchLength?_marked_none (by decide) ?_) _)
    exact fun blanks left hblanks htext => hmark ⟨blanks, left, hblanks, htext⟩

end Stylesheet

end Descent
