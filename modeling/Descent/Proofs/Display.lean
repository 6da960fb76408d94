import Descent.Proofs.Nesting
import Descent.Proofs.Quotation
import Descent.Value.Display
import Descent.Value.Equality

namespace Descent.Value

/-- Neither a floating-point number nor a map. -/
def isPlain : Value → Bool
  | .float _ | .map _ => false
  | .unit | .text _ | .list _ | .bool _ | .int _ => true

/-- The kinds of plain values. -/
inductive Kind where
  | unit
  | text
  | list
  | bool
  | int
  deriving DecidableEq

def kind? : Value → Option Kind
  | .unit => some .unit
  | .text _ => some .text
  | .list _ => some .list
  | .bool _ => some .bool
  | .int _ => some .int
  | .float _ | .map _ => none

/-- The kind of the plain values whose texts begin with the character. -/
def Kind.ofFirst? (c : Char) : Option Kind :=
  if c = '(' then some .unit
  else if c = '"' then some .text
  else if c = '[' then some .list
  else if c = 't' ∨ c = 'f' then some .bool
  else if c = '-' ∨ Decimal.isDigit 10 c = true then some .int
  else none

theorem Kind.ofFirst?_digit {c : Char} (h : Decimal.isDigit 10 c = true) :
    ofFirst? c = some .int := by
  have hall : ∀ k < 10, ofFirst? (Nat.digitChar k) = some .int := by decide
  obtain ⟨k, hk, rfl⟩ := Decimal.isDigit_iff.1 h
  exact hall k hk

/-- What stands between the brackets of a list. -/
def itemsChars : List Value → List Char
  | [] => []
  | v :: vs => v.displayChars ++ displayItems vs

theorem displayChars_list (vs : List Value) :
    (list vs).displayChars = '[' :: (itemsChars vs ++ [']']) := by
  cases vs with
  | nil => rfl
  | cons v vs =>
    rw [displayChars, itemsChars]
    simp only [List.cons_append, List.append_assoc]

/-- The first character of a text tells the kind of the value. -/
theorem exists_displayChars {v : Value} (h : v.isPlain = true) :
    ∃ c cs, v.displayChars = c :: cs ∧ Kind.ofFirst? c = v.kind? ∧ c ≠ ']' := by
  cases v with
  | unit | text => exact ⟨_, _, rfl, rfl, by decide⟩
  | list vs => exact ⟨_, _, displayChars_list vs, rfl, by decide⟩
  | bool b =>
    cases b with
    | true => exact ⟨'t', "rue".toList, rfl, rfl, by decide⟩
    | false => exact ⟨'f', "alse".toList, rfl, rfl, by decide⟩
  | int n =>
    obtain ⟨c, cs, hn, rfl | hc⟩ := Decimal.exists_integer n.toInt
    · exact ⟨_, cs, hn, rfl, by decide⟩
    · refine ⟨c, cs, hn, Kind.ofFirst?_digit hc, ?_⟩
      rintro rfl
      exact absurd hc (by decide)
  | float | map => cases h

/-- No digit follows, so that a number ends here. -/
def NumberEnds (t : List Char) : Prop := ∀ c ∈ t.head?, Decimal.isDigit 10 c = false

theorem numberEnds_nil : NumberEnds [] := fun _ h => absurd h (by simp)

theorem numberEnds_cons {c : Char} (h : c = ',' ∨ c = ']') (t : List Char) :
    NumberEnds (c :: t) := by
  intro d hd
  obtain rfl := Option.some.inj hd
  rcases h with rfl | rfl <;> decide

theorem numberEnds_displayItems (vs : List Value) (t : List Char) :
    NumberEnds (displayItems vs ++ ']' :: t) := by
  cases vs with
  | nil => exact numberEnds_cons (.inr rfl) t
  | cons v vs => exact numberEnds_cons (.inl rfl) _

/-- The value, and what follows it, can be told from what is written. -/
def Legible (v : Value) : Prop :=
  ∀ {w : Value} {t u : List Char}, w.Everywhere (fun x => x.isPlain = true) → NumberEnds t →
    NumberEnds u → v.displayChars ++ t = w.displayChars ++ u → v = w ∧ t = u

theorem displayItems_append_inj {vs ws : List Value} {t u : List Char} (hvs : ∀ v ∈ vs, v.Legible)
    (hws : ∀ w ∈ ws, w.Everywhere fun x => x.isPlain = true)
    (h : displayItems vs ++ ']' :: t = displayItems ws ++ ']' :: u) : vs = ws ∧ t = u := by
  induction vs generalizing ws with
  | nil =>
    cases ws with
    | nil => exact ⟨rfl, (List.cons.inj h).2⟩
    | cons w ws => exact absurd (List.cons.inj h).1 (by decide)
  | cons v vs ih =>
    cases ws with
    | nil => exact absurd (List.cons.inj h).1 (by decide)
    | cons w ws =>
      simp only [displayItems, List.cons_append, List.append_assoc, List.cons.injEq, true_and] at h
      obtain ⟨rfl, hrest⟩ :=
        hvs v List.mem_cons_self (hws w List.mem_cons_self) (numberEnds_displayItems vs t)
        (numberEnds_displayItems ws u) h
      obtain ⟨rfl, rfl⟩ := ih (fun x hx => hvs x (List.mem_cons_of_mem _ hx))
        (fun x hx => hws x (List.mem_cons_of_mem _ hx)) hrest
      exact ⟨rfl, rfl⟩

theorem itemsChars_append_inj {vs ws : List Value} {t u : List Char} (hvs : ∀ v ∈ vs, v.Legible)
    (hplain : ∀ v ∈ vs, v.isPlain = true) (hws : ∀ w ∈ ws, w.Everywhere fun x => x.isPlain = true)
    (h : itemsChars vs ++ ']' :: t = itemsChars ws ++ ']' :: u) : vs = ws ∧ t = u := by
  -- No text of a value begins with the bracket that ends the list.
  have hbracket {v : Value} (hv : v.isPlain = true) (t u : List Char) :
      v.displayChars ++ t ≠ ']' :: u := by
    obtain ⟨c, cs, hchars, _, hc⟩ := exists_displayChars hv
    rw [hchars]
    exact fun heq => hc (List.cons.inj heq).1
  cases vs with
  | nil =>
    cases ws with
    | nil => exact ⟨rfl, (List.cons.inj h).2⟩
    | cons w ws =>
      rw [itemsChars, itemsChars, List.append_assoc] at h
      exact absurd h.symm (hbracket (hws w List.mem_cons_self).self _ _)
  | cons v vs =>
    cases ws with
    | nil =>
      rw [itemsChars, itemsChars, List.append_assoc] at h
      exact absurd h (hbracket (hplain v List.mem_cons_self) _ _)
    | cons w ws =>
      -- With a comma in front the first item is one like the others.
      refine displayItems_append_inj hvs hws ?_
      rw [itemsChars, itemsChars] at h
      rw [displayItems, displayItems, List.append_assoc]
      simp only [List.cons_append, List.append_assoc] at h ⊢
      rw [h]

theorem legible_of_plain {v : Value} (hv : v.Everywhere fun x => x.isPlain = true) : v.Legible := by
  induction v using childInduction with
  | h v ih =>
    intro w t u hw ht hu h
    have hkind : v.kind? = w.kind? := by
      obtain ⟨c, cs, hc, hvkind, _⟩ := exists_displayChars hv.self
      obtain ⟨d, ds, hd, hwkind, _⟩ := exists_displayChars hw.self
      rw [hc, hd] at h
      obtain rfl : c = d := (List.cons.inj h).1
      exact hvkind.symm.trans hwkind
    cases v with
    | float | map => cases hv.self
    | unit =>
      cases w with
      | unit => exact ⟨rfl, List.append_cancel_left h⟩
      | text | list | bool | int | float | map => cases hkind
    | text s =>
      cases w with
      | text s' =>
        simp only [displayChars, List.cons_append, List.append_assoc, List.nil_append,
          List.cons.injEq, true_and] at h
        obtain ⟨hs, hrest⟩ := Text.Quoted.escape_append_inj h
        exact ⟨congrArg text (String.toList_inj.1 hs), hrest⟩
      | unit | list | bool | int | float | map => cases hkind
    | bool b =>
      cases w with
      | bool b' =>
        cases b <;> cases b'
        · exact ⟨rfl, List.append_cancel_left h⟩
        · exact absurd (List.cons.inj h).1 (by decide)
        · exact absurd (List.cons.inj h).1 (by decide)
        · exact ⟨rfl, List.append_cancel_left h⟩
      | unit | text | list | int | float | map => cases hkind
    | int n =>
      cases w with
      | int n' =>
        obtain ⟨hn, hrest⟩ := Decimal.integer_append_inj ht hu h
        exact ⟨congrArg int (Int64.toInt_inj.1 hn), hrest⟩
      | unit | text | list | bool | float | map => cases hkind
    | list vs =>
      cases w with
      | list ws =>
        simp only [displayChars_list, List.cons_append, List.append_assoc, List.nil_append,
          List.cons.injEq, true_and] at h
        obtain ⟨rfl, hrest⟩ := itemsChars_append_inj (fun x hx => ih x hx (hv.child hx))
          (fun x hx => (hv.child hx).self) (fun x hx => hw.child hx) h
        exact ⟨rfl, hrest⟩
      | unit | text | bool | int | float | map => cases hkind

theorem beqList_iff {vs ws : List Value} (h : ∀ v ∈ vs, ∀ w, v.beq w = true ↔ v = w) :
    beqList vs ws = true ↔ vs = ws := by
  induction vs generalizing ws with
  | nil => cases ws <;> simp [beqList]
  | cons v vs ih =>
    cases ws with
    | nil => simp [beqList]
    | cons w ws =>
      rw [beqList, Bool.and_eq_true, h v List.mem_cons_self w,
        ih fun x hx => h x (List.mem_cons_of_mem _ hx), List.cons.injEq]

/-- Plain values are compared as what they are. -/
theorem beq_iff {v w : Value} (hv : v.Everywhere fun x => x.isPlain = true) :
    v.beq w = true ↔ v = w := by
  induction v using childInduction generalizing w with
  | h v ih =>
    cases v with
    | float | map => cases hv.self
    | list vs =>
      cases w with
      | list ws =>
        rw [beq, list.injEq]
        exact beqList_iff fun x hx w => ih x hx (hv.child hx)
      | unit | text | bool | int | float | map => simp [beq]
    | unit | text | bool | int => cases w <;> simp [beq]

/-- Values without floating-point numbers and maps have one text just if they are equal. If the
texts of two such values, each with a comma or a closing bracket and anything behind it, are the
same, so are the values and what follows. -/
theorem display_unambiguous {v w : Value} (hv : v.Everywhere fun x => x.isPlain = true)
    (hw : w.Everywhere fun x => x.isPlain = true) :
    (v.display = w.display ↔ v = w) ∧ ((v == w) = true ↔ v = w) ∧
    ∀ rest rest' : String, (∃ c ∈ rest.toList.head?, c = ',' ∨ c = ']') →
      (∃ c ∈ rest'.toList.head?, c = ',' ∨ c = ']') → v.display ++ rest = w.display ++ rest' →
      v = w ∧ rest = rest' := by
  refine ⟨⟨fun h => ?_, congrArg display⟩, beq_iff hv, fun rest rest' hrest hrest' h => ?_⟩
  · have hchars : v.displayChars = w.displayChars := String.ofList_injective h
    refine (legible_of_plain hv hw numberEnds_nil numberEnds_nil ?_).1
    rw [hchars]
  · have hends {s : String} (hs : ∃ c ∈ s.toList.head?, c = ',' ∨ c = ']') :
        NumberEnds s.toList := by
      obtain ⟨c, hhead, hc⟩ := hs
      obtain ⟨t, ht⟩ := List.head?_eq_some_iff.1 hhead
      rw [ht]
      exact numberEnds_cons hc t
    have hchars : v.displayChars ++ rest.toList = w.displayChars ++ rest'.toList := by
      simpa [display] using congrArg String.toList h
    obtain ⟨hvw, htails⟩ := legible_of_plain hv hw (hends hrest) (hends hrest') hchars
    exact ⟨hvw, String.toList_inj.1 htails⟩

/-- A list of two texts, and a list of one text that looks like them, with joining marks at the
start and inside. -/
theorem display_unambiguous_lookalike : ∃ v w : Value, v.Everywhere (fun x => x.isPlain = true) ∧
    w.Everywhere (fun x => x.isPlain = true) ∧ v.display ≠ w.display ∧
      v.display ++ ", -1]" ≠ w.display ++ "]" := by
  let v := list [.text "\u0301a", .text "b\u0301"]
  let w := list [.text "\u0301a\", \"b\u0301"]
  have hv : v.Everywhere fun x => x.isPlain = true := by decide
  have hw : w.Everywhere fun x => x.isPlain = true := by decide
  have hne : v ≠ w := fun h => absurd (congrArg List.length (list.inj h)) (by decide)
  obtain ⟨htexts, _, hbehind⟩ := display_unambiguous hv hw
  refine ⟨v, w, hv, hw, fun h => hne (htexts.1 h), fun h => hne (hbehind ", -1]" "]" ?_ ?_ h).1⟩
  · exact ⟨',', rfl, .inl rfl⟩
  · exact ⟨']', rfl, .inr rfl⟩

end Descent.Value
