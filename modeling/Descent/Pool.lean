namespace Descent

variable {α : Type} [DecidableEq α]

/-- The members of `xs`, then those of `ys` that are not among them yet, each once and in order. -/
def pool (xs : List α) : List α → List α
  | [] => xs
  | y :: ys => pool (if y ∈ xs then xs else xs ++ [y]) ys

@[simp] theorem mem_pool {x : α} {xs ys : List α} : x ∈ pool xs ys ↔ x ∈ xs ∨ x ∈ ys := by
  induction ys generalizing xs with
  | nil => simp [pool]
  | cons y ys ih =>
    rw [pool, ih]
    split
    · simp only [List.mem_cons]
      constructor
      · rintro (h | h) <;> simp [h]
      · rintro (h | rfl | h) <;> simp [*]
    · simp [or_assoc]

theorem nodup_pool {xs ys : List α} (h : xs.Nodup) : (pool xs ys).Nodup := by
  induction ys generalizing xs with
  | nil => exact h
  | cons y ys ih =>
    rw [pool]
    apply ih
    split
    · exact h
    · rename_i hy
      rw [List.nodup_append]
      refine ⟨h, by simp, ?_⟩
      rintro a ha b hb rfl
      exact hy (List.mem_singleton.1 hb ▸ ha)

end Descent
