import Descent.Proofs.Stylesheet.Patterns

namespace Descent.Stylesheet

open Rule

variable {s : Store} {gap lead trail taken left : List Char} {r : Rule} {v : Value}
  {hw : (Regex.parse? "\\s+".toList).isSome = true}

theorem repeats_blanks {blanks rest : List Char} {vs : List Value}
    (hblanks : ∀ b ∈ blanks, Text.isSpace b = true)
    (hrest : ∀ c ∈ (rest ++ left).head?, Text.isSpace c = false)
    (h : Repeats s (.choice [regex "\\s+" hw, comment]) rest left vs) :
    ∃ vs, Repeats s (.choice [regex "\\s+" hw, comment]) (blanks ++ rest) left vs := by
  by_cases hne : blanks = []
  · rw [hne]
    exact ⟨vs, h⟩
  · exact ⟨_, .step hne (reads_choice (List.forall_mem_nil _) (reads_spaces hblanks hne hrest hw))
      h⟩

/-- Blanks are read in runs, so those already seen count towards what is left. -/
theorem repeats_trivia (s : Store) (h : IsTrivia gap) (hleft : Solid left) {blanks : List Char}
    (hblanks : ∀ b ∈ blanks, Text.isSpace b = true) :
    ∃ vs, Repeats s (.choice [regex "\\s+" hw, comment]) (blanks ++ gap) left vs := by
  induction h generalizing blanks with
  | nil =>
    refine repeats_blanks hblanks hleft.blank (.stop (misses_choice ?_))
    exact List.forall_mem_cons.2 ⟨misses_spaces hleft.blank hw,
      List.forall_mem_singleton.2 (misses_comment hleft.comment)⟩
  | @blank c cs hc _ ih =>
    rw [List.append_cons]
    exact ih (List.forall_mem_append.2 ⟨hblanks, List.forall_mem_singleton.2 hc⟩)
  | @comment body cs hbody _ ih =>
    obtain ⟨vs, hvs⟩ := ih (List.forall_mem_nil _)
    have hslash (more : List Char) :
        ∀ c ∈ (commentText body ++ more).head?, Text.isSpace c = false := by
      rintro c ⟨⟩
      decide
    refine repeats_blanks hblanks (by rw [List.append_assoc]; exact hslash _)
      (.step (by simp [commentText])
      (reads_choice (List.forall_mem_singleton.2 (misses_spaces (hslash _) hw))
        (reads_comment hbody _)) hvs)

theorem reads_trivia (s : Store) (h : IsTrivia gap) (hleft : Solid left) :
    trivia.Reads s gap left .unit := by
  obtain ⟨_, hvs⟩ := repeats_trivia s h hleft (List.forall_mem_nil _)
  exact reads_discard (reads_repeated hvs)

theorem reads_lexeme (hlead : IsTrivia lead) (htrail : IsTrivia trail) (hleft : Solid left)
    (hsolid : Solid (taken ++ (trail ++ left))) (h : r.Reads s taken (trail ++ left) v) :
    (lexeme r).Reads s (lead ++ (taken ++ trail)) left v :=
  reads_enclosed (reads_trivia s hlead hsolid) h (reads_trivia s htrail hleft)

theorem misses_lexeme (hleft : Solid left) (h : r.Misses s left) : (lexeme r).Misses s left :=
  misses_enclosed (reads_trivia s .nil hleft) h trivia

/-- A rule that reads on over blanks takes the first of the trivia behind it. -/
theorem reads_lexeme_blanks (hlead : IsTrivia lead) (htrail : IsTrivia trail) (hleft : Solid left)
    (hsolid : ∀ more, Solid (taken ++ more))
    (h : ∀ blanks rest, (∀ b ∈ blanks, Text.isSpace b = true) → rest = left ∨ ['/', '*'] <+: rest →
      r.Reads s (taken ++ blanks) rest v) :
    (lexeme r).Reads s (lead ++ (taken ++ trail)) left v := by
  obtain ⟨blanks, rest, rfl, hblanks, hrest⟩ := htrail.cases_blanks
  have hbehind : IsTrivia rest ∧ (rest ++ left = left ∨ ['/', '*'] <+: rest ++ left) := by
    rcases hrest with rfl | ⟨body, more, rfl, hbody, hmore⟩
    · exact ⟨.nil, .inl rfl⟩
    · exact ⟨.comment hbody hmore, .inr (List.prefix_append ['/', '*'] _)⟩
  have hread := reads_lexeme hlead hbehind.1 hleft (by rw [List.append_assoc]; exact hsolid _)
    (h blanks (rest ++ left) hblanks hbehind.2)
  rwa [List.append_assoc] at hread

theorem reads_punctuation (s : Store) {c : Char} (hc : Text.isSpace c = false) (hslash : c ≠ '/')
    {mark : String} (hmark : mark.toList = [c]) (htrail : IsTrivia trail) (hleft : Solid left) :
    (lexeme (literal mark)).Reads s (c :: trail) left (.text mark) := by
  have hread := reads_literal s mark (trail ++ left)
  rw [hmark] at hread
  exact reads_lexeme .nil htrail hleft (solid_cons hc hslash _) hread

theorem misses_punctuation {mark : String} {c d : Char} (hmark : mark.toList = [c]) (hne : c ≠ d)
    (hleft : left.head? = some d) : (literal mark).Misses s left := by
  obtain ⟨left, rfl⟩ := List.head?_eq_some_iff.1 hleft
  refine misses_literal fun h => hne ?_
  rw [hmark] at h
  exact (List.cons_prefix_cons.1 h).1

end Descent.Stylesheet
