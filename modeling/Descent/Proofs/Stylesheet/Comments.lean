import Descent.Proofs.Stylesheet.Layout

namespace Descent.Stylesheet

/-- Where a text leaves off. A slash makes a pair with whatever stands behind it, and with an
asterisk the pair begins a comment. -/
inductive Place where
  | outside
  /-- Behind a slash that waits for the other half of its pair. -/
  | slash
  | comment
  /-- In a comment, behind an asterisk. -/
  | asterisk
  deriving DecidableEq

namespace Place

def next : Place → Char → Place
  | outside, c => if c = '/' then slash else outside
  | slash, c => if c = '*' then comment else outside
  | comment, c => if c = '*' then asterisk else comment
  | asterisk, c => if c = '/' then outside else if c = '*' then asterisk else comment

/-- The place behind a text that is read from here on. -/
def behind (p : Place) (text : List Char) : Place := text.foldl next p

theorem behind_append (p : Place) (front back : List Char) :
    p.behind (front ++ back) = (p.behind front).behind back :=
  List.foldl_append

/-- Inside of a comment, nothing leads out of it but its end. -/
theorem behind_inside {p : Place} {text : List Char} (hp : p = comment ∨ p = asterisk)
    (hfirst : p = asterisk → text.head? ≠ some '/') (h : ¬ ['*', '/'] <:+: text) :
    p.behind text = comment ∨ p.behind text = asterisk := by
  induction text generalizing p with
  | nil => exact hp
  | cons c text ih =>
    have hnext : p.next c = if c = '*' then asterisk else comment := by
      rcases hp with rfl | rfl
      · rfl
      · have hc : c ≠ '/' := fun hc => hfirst rfl (congrArg some hc)
        simp [next, hc]
    have hinside : p.next c = comment ∨ p.next c = asterisk := by
      rw [hnext]
      by_cases hc : c = '*' <;> simp [hc]
    refine ih hinside ?_ fun hoccurs => h (hoccurs.trans (List.suffix_cons c text).isInfix)
    intro hasterisk hslash
    have hc : c = '*' := by
      by_contra hc
      simp [hnext, hc] at hasterisk
    obtain ⟨rest, rfl⟩ := List.head?_eq_some_iff.1 hslash
    exact h (hc ▸ (List.prefix_append ['*', '/'] rest).isInfix)

end Place

/-- At the end of the text no comment is open, and no slash waits for the other half of its pair. -/
def Closed (text : List Char) : Prop := Place.outside.behind text = .outside

instance (text : List Char) : Decidable (Closed text) := inferInstanceAs (Decidable (_ = _))

variable {front back text body : List Char}

theorem closed_nil : Closed [] := rfl

theorem closed_append (h : Closed front) : Closed (front ++ back) ↔ Closed back := by
  rw [Closed, Place.behind_append, h]
  rfl

theorem closed_cons {c : Char} (hc : c ≠ '/') : Closed (c :: text) ↔ Closed text := by
  have hone : Closed [c] := by simp [Closed, Place.behind, Place.next, hc]
  exact closed_append hone

theorem closed_of_forall_ne (h : ∀ c ∈ text, c ≠ '/') : Closed text := by
  induction text with
  | nil => exact closed_nil
  | cons c text ih =>
    rw [List.forall_mem_cons] at h
    exact (closed_cons h.1).2 (ih h.2)

theorem ne_slash_of_isSpace {c : Char} (h : Text.isSpace c = true) : c ≠ '/' := by
  rintro rfl
  exact absurd h (by decide)

theorem closed_commentText (hbody : ¬ ['*', '/'] <:+: body) : Closed (commentText body) := by
  have hinside := Place.behind_inside (.inl rfl) nofun hbody
  have hplace : Place.outside.behind (commentText body) =
      (Place.comment.behind body).behind ['*', '/'] :=
    Place.behind_append .comment body ['*', '/']
  rw [Closed, hplace]
  rcases hinside with h | h <;> rw [h] <;> rfl

theorem IsTrivia.closed (h : IsTrivia text) : Closed text := by
  induction h with
  | nil => exact closed_nil
  | blank hc _ ih => exact (closed_cons (ne_slash_of_isSpace hc)).2 ih
  | comment hbody _ ih => exact (closed_append (closed_commentText hbody)).2 ih

theorem closed_of_valueText (h : ValueText text) : Closed text := by
  induction h with
  | nil => exact closed_nil
  | single hc _ ih => exact (closed_cons (contains_valueOne.1 hc).2).2 ih
  | @pair a c rest ha hc _ ih =>
    obtain rfl := CharSet.contains_single.1 ha
    have hpair : Closed ['/', c] := by
      have hne := contains_valueSecond.1 hc
      simp [Closed, Place.behind, Place.next, hne]
    exact (closed_append hpair).2 ih

/-- A blank in a text of two parts stands in the first or in the second. -/
theorem blank_cases {lead trail : List Char} (h : front ++ ' ' :: back = lead ++ trail) :
    (∃ rest, lead = front ++ ' ' :: rest ∧ back = rest ++ trail) ∨
      ∃ rest, front = lead ++ rest ∧ trail = rest ++ ' ' :: back := by
  rcases List.append_eq_append_iff.1 h with ⟨rest, hlead, hback⟩ | ⟨rest, hfront, htrail⟩
  · cases rest with
    | nil => exact .inr ⟨[], by rw [hlead, List.append_nil, List.append_nil], hback.symm⟩
    | cons c rest =>
      obtain ⟨rfl, hrest⟩ := List.cons.inj hback
      exact .inl ⟨rest, hlead, hrest⟩
  · exact .inr ⟨rest, hfront, htrail⟩

/-- A blank that a comment holds is inside of it. -/
theorem not_closed_of_commentText {rest : List Char} (hbody : ¬ ['*', '/'] <:+: body)
    (h : commentText body = front ++ ' ' :: rest) : ¬ Closed front := by
  have hopen : ['/', '*'] ++ (body ++ ['*', '/']) = front ++ ' ' :: rest := h
  rcases blank_cases hopen.symm with ⟨_, hmark, _⟩ | ⟨front, rfl, hrest⟩
  · have hmem : ' ' ∈ ['/', '*'] := by simp [hmark]
    simp at hmem
  · rcases blank_cases hrest.symm with ⟨more, rfl, _⟩ | ⟨more, _, hmark⟩
    · have hfront : ¬ ['*', '/'] <:+: front :=
        fun hoccurs => hbody (hoccurs.trans (List.prefix_append front _).isInfix)
      have hinside := Place.behind_inside (.inl rfl) nofun hfront
      intro hclosed
      have hplace : Place.comment.behind front = .outside := hclosed
      rw [hplace] at hinside
      simp at hinside
    · have hmem : ' ' ∈ ['*', '/'] := by simp [hmark]
      simp at hmem

/-- In place of a blank in trivia there may be any other. -/
theorem IsTrivia.replace (h : IsTrivia (front ++ ' ' :: back)) (hfront : Closed front)
    {gap : List Char} (hgap : IsTrivia gap) : IsTrivia (front ++ (gap ++ back)) := by
  generalize htext : front ++ ' ' :: back = text at h
  induction h generalizing front with
  | nil => simp at htext
  | @blank c cs hc h ih =>
    rcases List.append_eq_cons_iff.1 htext with ⟨rfl, hcons⟩ | ⟨rest, rfl, hrest⟩
    · obtain ⟨rfl, rfl⟩ := List.cons.inj hcons
      exact hgap.append h
    · exact .blank hc (ih ((closed_cons (ne_slash_of_isSpace hc)).1 hfront) hrest.symm)
  | @comment body cs hbody h ih =>
    rcases blank_cases htext with ⟨rest, hcomment, _⟩ | ⟨rest, rfl, hrest⟩
    · exact absurd hfront (not_closed_of_commentText hbody hcomment)
    · have htrivia := ih ((closed_append (closed_commentText hbody)).1 hfront) hrest.symm
      rw [List.append_assoc]
      exact .comment hbody htrivia

/-- A value is cut by a blank that no slash makes a pair with. -/
theorem valueText_cut (h : ValueText (front ++ ' ' :: back)) (hfront : Closed front) :
    ValueText front ∧ ValueText back := by
  generalize htext : front ++ ' ' :: back = text at h
  induction h generalizing front with
  | nil => simp at htext
  | @single c cs hc h ih =>
    rcases List.append_eq_cons_iff.1 htext with ⟨rfl, hcons⟩ | ⟨rest, rfl, hrest⟩
    · obtain ⟨rfl, rfl⟩ := List.cons.inj hcons
      exact ⟨.nil, h⟩
    · have hcut := ih ((closed_cons (contains_valueOne.1 hc).2).1 hfront) hrest.symm
      exact ⟨.single hc hcut.1, hcut.2⟩
  | @pair a c cs ha hc h ih =>
    obtain rfl := CharSet.contains_single.1 ha
    rcases List.append_eq_cons_iff.1 htext with ⟨rfl, hcons⟩ | ⟨rest, rfl, hrest⟩
    · simp at hcons
    · rcases List.cons_eq_append_iff.1 hrest with ⟨rfl, -⟩ | ⟨later, rfl, hlater⟩
      · exact absurd hfront (by decide)
      · have hpair : Closed ['/', c] := closed_of_valueText (.pair ha hc .nil)
        have hcut := ih ((closed_append hpair).1 hfront) hlater.symm
        exact ⟨.pair ha hc hcut.1, hcut.2⟩

/-- A blank in a row of tokens with trivia behind each. -/
inductive BlankIn (tokens : List (List Char)) (front back : List Char) : Prop
  /-- In the trivia. -/
  | between (h : ∀ gap, IsTrivia gap → Trailed tokens (front ++ (gap ++ back)))
  /-- Inside of a token. Any other may stand in its place, with more trivia behind it. -/
  | inside {before after : List (List Char)} {left right lead trail : List Char}
    (htokens : tokens = before ++ (left ++ ' ' :: right) :: after) (hfront : front = lead ++ left)
    (hback : back = right ++ trail) (hclosed : Closed left)
    (h : ∀ token gap, IsTrivia gap →
      Trailed (before ++ token :: after) (lead ++ (token ++ (gap ++ trail))))

theorem Trailed.closed {tokens : List (List Char)} (h : Trailed tokens text)
    (htokens : ∀ t ∈ tokens, Closed t) : Closed text := by
  induction h with
  | nil => exact closed_nil
  | cons token hgap _ ih =>
    rw [List.forall_mem_cons] at htokens
    exact (closed_append htokens.1).2 ((closed_append hgap.closed).2 (ih htokens.2))

theorem Trailed.blankIn {tokens : List (List Char)} (h : Trailed tokens (front ++ ' ' :: back))
    (htokens : ∀ t ∈ tokens, Closed t) (hfront : Closed front) : BlankIn tokens front back := by
  generalize htext : front ++ ' ' :: back = text at h
  induction h generalizing front with
  | nil => simp at htext
  | @cons gap text tokens token hgap h ih =>
    rw [List.forall_mem_cons] at htokens
    rcases blank_cases htext with ⟨right, rfl, rfl⟩ | ⟨rest, rfl, hrest⟩
    · refine .inside (List.nil_append _).symm (List.nil_append front).symm rfl hfront ?_
      intro other more hmore
      rw [← List.append_assoc more]
      exact .cons other (hmore.append hgap) h
    · have hclosed : Closed rest := (closed_append htokens.1).1 hfront
      rcases blank_cases hrest.symm with ⟨right, rfl, rfl⟩ | ⟨later, rfl, hlater⟩
      · refine .between fun more hmore => ?_
        have hcons := Trailed.cons token (hgap.replace hclosed hmore) h
        simpa only [List.append_assoc] using hcons
      · have hblank := ih htokens.2 ((closed_append hgap.closed).1 hclosed) hlater.symm
        cases hblank with
        | between h =>
          refine .between fun more hmore => ?_
          have hcons := Trailed.cons token hgap (h more hmore)
          simpa only [List.append_assoc] using hcons
        | @inside before after left right lead trail htokens hlead hback hleft h =>
          have hsplit : token :: tokens = (token :: before) ++ (left ++ ' ' :: right) :: after :=
            congrArg _ htokens
          have hfront : token ++ (gap ++ later) = (token ++ (gap ++ lead)) ++ left := by
            simp only [hlead, List.append_assoc]
          refine .inside hsplit hfront hback hleft ?_
          intro other more hmore
          have hcons := Trailed.cons token hgap (h other more hmore)
          simpa only [List.append_assoc, List.cons_append] using hcons

/-- A blank in the trivia behind a mark. -/
theorem blank_behind_mark {c : Char} {gap : List Char} (hc : c ≠ '/' ∧ c ≠ ' ')
    (hgap : IsTrivia gap) (h : front ++ ' ' :: back = c :: gap) (hfront : Closed front) :
    ∃ rest, front = c :: rest ∧ ∀ more, IsTrivia more → IsTrivia (rest ++ (more ++ back)) := by
  rcases List.append_eq_cons_iff.1 h with ⟨_, hcons⟩ | ⟨rest, rfl, rfl⟩
  · exact absurd (List.cons.inj hcons).1.symm hc.2
  · exact ⟨rest, rfl, fun more hmore => hgap.replace ((closed_cons hc.1).1 hfront) hmore⟩

end Descent.Stylesheet
