namespace Descent.Text

/-- The width of a text in bytes of its UTF-8 form. -/
def byteLength : List Char → Nat
  | [] => 0
  | c :: cs => c.utf8Size+byteLength cs

@[simp] theorem byteLength_nil : byteLength [] = 0 := rfl

@[simp] theorem byteLength_cons (c : Char) (cs : List Char) :
    byteLength (c :: cs) = c.utf8Size+byteLength cs := rfl

@[simp] theorem byteLength_append (as bs : List Char) :
    byteLength (as ++ bs) = byteLength as+byteLength bs := by
  induction as with
  | nil => simp
  | cons c as ih => simp [ih, Nat.add_assoc]

@[simp] theorem byteLength_reverse (cs : List Char) : byteLength cs.reverse = byteLength cs := by
  induction cs with
  | nil => rfl
  | cons c cs ih => simp [ih, Nat.add_comm]

/-- The text cut after its first `n` bytes; a character that straddles the cut stays on the
right. -/
def splitAtByte (n : Nat) : List Char → List Char × List Char
  | [] => ([], [])
  | c :: cs =>
    if c.utf8Size ≤ n then
      let (l, r) := splitAtByte (n-c.utf8Size) cs
      (c :: l, r)
    else ([], c :: cs)

theorem splitAtByte_append (n : Nat) (cs : List Char) :
    (splitAtByte n cs).1 ++ (splitAtByte n cs).2 = cs := by
  induction cs generalizing n with
  | nil => rfl
  | cons c cs ih => unfold splitAtByte; split <;> simp [ih]

theorem splitAtByte_byteLength (as bs : List Char) :
    splitAtByte (byteLength as) (as ++ bs) = (as, bs) := by
  induction as with
  | nil =>
    cases bs with
    | nil => rfl
    | cons c bs => simp [splitAtByte, Nat.not_le.2 (Char.utf8Size_pos c)]
  | cons c as ih => simp [splitAtByte, ih]

/-- The text between two byte offsets, if both stand between characters and are in order. -/
def slice? (start stop : Nat) (cs : List Char) : Option (List Char) :=
  let (before, rest) := splitAtByte start cs
  let (inside, _) := splitAtByte (stop-start) rest
  if byteLength before = start ∧ start+byteLength inside = stop then some inside else none

end Descent.Text
