import Descent.Stylesheet.Grammar

namespace Descent

namespace Text

/-- White space stands at neither end. -/
structure Trimmed (cs : List Char) : Prop where
  first : ∀ c ∈ cs.head?, isSpace c = false
  last : ∀ c ∈ cs.getLast?, isSpace c = false

instance (cs : List Char) : Decidable (Trimmed cs) :=
  decidable_of_iff (cs.head?.all (!isSpace ·) ∧ cs.getLast?.all (!isSpace ·))
    ⟨fun h => ⟨by simpa [Option.all_eq_true] using h.1, by simpa [Option.all_eq_true] using h.2⟩,
      fun h => ⟨by simpa [Option.all_eq_true] using h.first, by
        simpa [Option.all_eq_true] using h.last⟩⟩

theorem dropWhile_eq_self {p : Char → Bool} {cs : List Char} (h : ∀ c ∈ cs.head?, p c = false) :
    cs.dropWhile p = cs := by
  cases cs with
  | nil => rfl
  | cons c cs => rw [List.dropWhile_cons, h c rfl, if_neg Bool.false_ne_true]

theorem Trimmed.trim_append {cs blanks : List Char} (h : Trimmed cs) (hne : cs ≠ [])
    (hblanks : ∀ b ∈ blanks, isSpace b = true) : trim (cs ++ blanks) = cs := by
  have hfirst : ∀ c ∈ (cs ++ blanks).head?, isSpace c = false := by
    obtain ⟨a, cs, rfl⟩ := List.exists_cons_of_ne_nil hne
    exact h.first
  have hlast : ∀ c ∈ cs.reverse.head?, isSpace c = false := by
    rw [List.head?_reverse]
    exact h.last
  rw [trim, dropWhile_eq_self hfirst, List.reverse_append,
    List.dropWhile_append_of_pos fun b hb => hblanks b (List.mem_reverse.1 hb),
      dropWhile_eq_self hlast,
    List.reverse_reverse]

end Text

namespace Stylesheet

def commentText (body : List Char) : List Char := '/' :: '*' :: (body ++ ['*', '/'])

/-- White space and complete comments. -/
inductive IsTrivia : List Char → Prop
  | nil : IsTrivia []
  | blank {c : Char} {cs : List Char} (hc : Text.isSpace c = true) (h : IsTrivia cs) :
      IsTrivia (c :: cs)
  | comment {body cs : List Char} (hbody : ¬ ['*', '/'] <:+: body) (h : IsTrivia cs) :
    IsTrivia (commentText body ++ cs)

/-- The tokens in order, trivia behind each. -/
inductive Trailed : List (List Char) → List Char → Prop
  | nil : Trailed [] []
  | cons {gap text : List Char} {tokens : List (List Char)} (token : List Char)
    (hgap : IsTrivia gap)
    (h : Trailed tokens text) : Trailed (token :: tokens) (token ++ (gap ++ text))

/-- The tokens in order, trivia before, between and behind them. -/
def Writes (tokens : List (List Char)) (text : List Char) : Prop :=
  ∃ gap rest, text = gap ++ rest ∧ IsTrivia gap ∧ Trailed tokens rest

/-- The tokens of several parts, with a delimiter between them. -/
def joined (delimiter : List Char) : List (List (List Char)) → List (List Char)
  | [] => []
  | tokens :: parts => tokens ++ parts.flatMap fun tokens => delimiter :: tokens

structure Selector where
  text : List Char
  nonempty : text ≠ []
  trimmed : Text.Trimmed text
  clear : ∀ c ∈ text, c ∉ ['\x7b', '\x7d', ',', ';', '/']

def Selector.tree (s : Selector) : Value := .text (String.ofList s.text)

def isNameStart (c : Char) : Bool := c = '_' || ('a' ≤ c && c ≤ 'z') || ('A' ≤ c && c ≤ 'Z')

def isNamePart (c : Char) : Bool := isNameStart c || ('0' ≤ c && c ≤ '9') || c = '-'

def isName : List Char → Bool
  | [] => false
  | c :: cs => isNameStart c && cs.all isNamePart

/-- A name with at most one hyphen before it. -/
def isProperty : List Char → Bool
  | '-' :: cs => isName cs
  | cs => isName cs

theorem isNamePart_of_isNameStart {c : Char} (h : isNameStart c = true) : isNamePart c = true := by
  rw [isNamePart, h]
  rfl

theorem isName_iff {cs : List Char} : isName cs = true ↔
    ∃ c rest, cs = c :: rest ∧ isNameStart c = true ∧ ∀ a ∈ rest, isNamePart a = true := by
  cases cs with
  | nil => simp [isName]
  | cons c rest =>
    rw [isName, Bool.and_eq_true, List.all_eq_true]
    constructor
    · exact fun h => ⟨c, rest, rfl, h⟩
    · rintro ⟨_, _, ⟨⟩, h⟩
      exact h

theorem isProperty_iff {cs : List Char} : isProperty cs = true ↔
    isName cs = true ∨ ∃ rest, cs = '-' :: rest ∧ isName rest = true := by
  unfold isProperty
  split
  · rename_i rest
    have hsign : isName ('-' :: rest) = false := rfl
    simp [hsign]
  · rename_i hsign
    exact ⟨.inl, fun h => h.elim id fun ⟨rest, heq, _⟩ => absurd heq (hsign rest)⟩

theorem isNamePart_of_isProperty {cs : List Char} (h : isProperty cs = true) :
    ∀ c ∈ cs, isNamePart c = true := by
  have hname {cs : List Char} (h : isName cs = true) : ∀ c ∈ cs, isNamePart c = true := by
    obtain ⟨c, rest, rfl, hc, hrest⟩ := isName_iff.1 h
    exact List.forall_mem_cons.2 ⟨isNamePart_of_isNameStart hc, hrest⟩
  rcases isProperty_iff.1 h with h | ⟨rest, rfl, h⟩
  · exact hname h
  · exact List.forall_mem_cons.2 ⟨by decide, hname h⟩

structure Declaration where
  property : List Char
  value : List Char
  /-- The blanks in the mark of importance, if there is one. -/
  mark : Option (List Char)
  property_ok : isProperty property = true
  value_ne : value ≠ []
  value_trimmed : Text.Trimmed value
  mark_blank : ∀ blanks ∈ mark, ∀ b ∈ blanks, Text.isSpace b = true

namespace Declaration

def markToken (blanks : List Char) : List Char := '!' :: (blanks ++ "important".toList)

def tokens (d : Declaration) : List (List Char) :=
  [d.property, [':'], d.value] ++ (d.mark.map markToken).toList

def tree (d : Declaration) : Value := .map [
  ("property", .text (String.ofList (d.property.map Char.toLower))),
  ("value", .text (String.ofList d.value)),
  ("important", .bool d.mark.isSome)]

end Declaration

/-- The value is read to its end: it holds no character that ends a value, and behind each of its
slashes there is a character that does not begin a comment with it. -/
structure IsPlain (value : List Char) : Prop where
  clear : ∀ c ∈ value, c ∉ [';', '\x7b', '\x7d', '!']
  slashes : ∀ i < value.length, value[i]? = some '/' → ∃ c ∈ value[i+1]?, c ≠ '*'

instance (value : List Char) : Decidable (IsPlain value) :=
  decidable_of_iff (value.all (· ∉ [';', '\x7b', '\x7d', '!']) ∧
    ∀ i < value.length, value[i]? = some '/' → value[i+1]?.any (· ≠ '*'))
    ⟨fun h => ⟨by simpa using h.1, by simpa [Option.any_eq_true] using h.2⟩,
      fun h => ⟨by simpa using h.clear, by simpa [Option.any_eq_true] using h.slashes⟩⟩

structure StyleRule where
  selectors : List Selector
  declarations : List Declaration
  /-- Whether a semicolon stands behind the last declaration. -/
  closed : Bool
  selectors_ne : selectors ≠ []
  declarations_ne : closed = true → declarations ≠ []

namespace StyleRule

def selectorTokens (r : StyleRule) : List (List Char) :=
  joined [','] (r.selectors.map fun sel => [sel.text])

/-- The tokens between the braces. -/
def bodyTokens (r : StyleRule) : List (List Char) :=
  joined [';'] (r.declarations.map Declaration.tokens) ++ if r.closed then [[';']] else []

def tokens (r : StyleRule) : List (List Char) :=
  r.selectorTokens ++ ['\x7b'] :: (r.bodyTokens ++ [['\x7d']])

def tree (r : StyleRule) : Value := .map [
  ("selectors", .list (r.selectors.map Selector.tree)),
  ("declarations", .list (r.declarations.map Declaration.tree))]

end StyleRule

/-- The tokens of a sheet, rule by rule. -/
def tokens (sheet : List StyleRule) : List (List Char) := sheet.flatMap StyleRule.tokens

def tree (sheet : List StyleRule) : Value := .list (sheet.map StyleRule.tree)

/-- Nothing that is skipped begins here. -/
structure Solid (text : List Char) : Prop where
  blank : ∀ c ∈ text.head?, Text.isSpace c = false
  comment : ¬ ['/', '*'] <+: text

theorem solid_nil : Solid [] := ⟨nofun, by simp⟩

theorem solid_cons {c : Char} (hc : Text.isSpace c = false) (hslash : c ≠ '/') (cs : List Char) :
    Solid (c :: cs) where
  blank := by
    rintro d ⟨⟩
    exact hc
  comment := fun h => hslash (List.cons_prefix_cons.1 h).1.symm

theorem solid_of_head {c : Char} {text : List Char} (h : text.head? = some c)
    (hc : Text.isSpace c = false) (hslash : c ≠ '/') : Solid text := by
  obtain ⟨cs, rfl⟩ := List.head?_eq_some_iff.1 h
  exact solid_cons hc hslash cs

theorem isTrivia_comment (body : List Char) (h : ¬ ['*', '/'] <:+: body) :
    IsTrivia (commentText body) := by
  have htrivia := IsTrivia.comment h .nil
  rwa [List.append_nil] at htrivia

/-- Trivia begins with blanks, and then it is over or a comment follows. -/
theorem IsTrivia.cases_blanks {gap : List Char} (h : IsTrivia gap) :
    ∃ blanks rest, gap = blanks ++ rest ∧ (∀ b ∈ blanks, Text.isSpace b = true) ∧ (rest = [] ∨
      ∃ body more, rest = commentText body ++ more ∧ ¬ ['*', '/'] <:+: body ∧ IsTrivia more) := by
  induction h with
  | nil => exact ⟨[], [], rfl, nofun, .inl rfl⟩
  | @blank c cs hc _ ih =>
    obtain ⟨blanks, rest, rfl, hblanks, hrest⟩ := ih
    exact ⟨c :: blanks, rest, rfl, List.forall_mem_cons.2 ⟨hc, hblanks⟩, hrest⟩
  | @comment body cs hbody h _ =>
    exact ⟨[], commentText body ++ cs, rfl, nofun, .inr ⟨body, cs, rfl, hbody, h⟩⟩

theorem Trailed.append_inv {ts us : List (List Char)} {text : List Char}
    (h : Trailed (ts ++ us) text) :
    ∃ front back, text = front ++ back ∧ Trailed ts front ∧ Trailed us back := by
  induction ts generalizing text with
  | nil => exact ⟨[], text, rfl, .nil, h⟩
  | cons t ts ih =>
    obtain - | ⟨_, hgap, h⟩ := h
    obtain ⟨front, back, rfl, hfront, hback⟩ := ih h
    exact ⟨_, back, by simp only [List.append_assoc], .cons t hgap hfront, hback⟩

theorem Trailed.single_inv {t text : List Char} (h : Trailed [t] text) :
    ∃ gap, text = t ++ gap ∧ IsTrivia gap := by
  obtain - | ⟨_, hgap, h⟩ := h
  cases h
  exact ⟨_, by rw [List.append_nil], hgap⟩

end Stylesheet

end Descent
