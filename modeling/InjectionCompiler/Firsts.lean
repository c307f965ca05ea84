/-!
# First occurrences

The members of a list that show a key for the first time, and those that repeat one.
-/

namespace InjectionCompiler

variable {α κ : Type} [DecidableEq κ]

/-- The members whose key is not in `seen` and that no member before them shares, in order. -/
def firstsFrom (key : α → κ) (seen : List κ) : List α → List α
  | [] => []
  | x :: xs =>
      if key x ∈ seen then firstsFrom key seen xs
      else x :: firstsFrom key (key x :: seen) xs

/-- The members that no member before them shares the key with. -/
def firsts (key : α → κ) (xs : List α) : List α :=
  firstsFrom key [] xs

/-- The members whose key is in `seen` or belongs to a member before them, in order. -/
def repeatsFrom (key : α → κ) (seen : List κ) : List α → List α
  | [] => []
  | x :: xs =>
      if key x ∈ seen then x :: repeatsFrom key seen xs
      else repeatsFrom key (key x :: seen) xs

/-- The members that share their key with a member before them. -/
def repeats (key : α → κ) (xs : List α) : List α :=
  repeatsFrom key [] xs

theorem mem_of_mem_firstsFrom {key : α → κ} {seen : List κ} {xs : List α} {x : α}
    (h : x ∈ firstsFrom key seen xs) : x ∈ xs ∧ key x ∉ seen := by
  induction xs generalizing seen with
  | nil => simp [firstsFrom] at h
  | cons y ys ih =>
      simp only [firstsFrom] at h
      split at h
      · exact ⟨List.mem_cons_of_mem _ (ih h).1, (ih h).2⟩
      · next hy =>
          rcases List.mem_cons.1 h with rfl | h
          · exact ⟨List.mem_cons_self .., hy⟩
          · exact ⟨List.mem_cons_of_mem _ (ih h).1, fun hs => (ih h).2 (List.mem_cons_of_mem _ hs)⟩

theorem key_mem_map_firstsFrom {key : α → κ} {seen : List κ} {xs : List α} {k : κ} :
    k ∈ (firstsFrom key seen xs).map key ↔ k ∈ xs.map key ∧ k ∉ seen := by
  induction xs generalizing seen with
  | nil => simp [firstsFrom]
  | cons y ys ih =>
      simp only [firstsFrom]
      split
      · next hy =>
          rw [ih]
          simp only [List.map_cons, List.mem_cons]
          constructor
          · exact fun ⟨hk, hs⟩ => ⟨.inr hk, hs⟩
          · rintro ⟨rfl | hk, hs⟩
            · exact absurd hy hs
            · exact ⟨hk, hs⟩
      · next hy =>
          rw [List.map_cons, List.mem_cons, ih]
          simp only [List.map_cons, List.mem_cons, not_or]
          constructor
          · rintro (rfl | ⟨hk, hne, hs⟩)
            · exact ⟨.inl rfl, hy⟩
            · exact ⟨.inr hk, hs⟩
          · rintro ⟨rfl | hk, hs⟩
            · exact .inl rfl
            · by_cases hky : k = key y
              · exact .inl hky
              · exact .inr ⟨hk, hky, hs⟩

theorem nodup_map_firstsFrom (key : α → κ) (seen : List κ) (xs : List α) :
    ((firstsFrom key seen xs).map key).Nodup := by
  induction xs generalizing seen with
  | nil => exact .nil
  | cons y ys ih =>
      simp only [firstsFrom]
      split
      · exact ih seen
      · rw [List.map_cons, List.nodup_cons]
        exact ⟨fun hy => (key_mem_map_firstsFrom.1 hy).2 (List.mem_cons_self ..), ih _⟩

end InjectionCompiler
