import InjectionCompiler.Search
import Mathlib.Data.List.Induction
import Mathlib.Data.List.TakeWhile

/-!
# Lists that keep growing

What is appended to a list of names, each name once, does not depend on how the appended names are
grouped, and as a set it does not depend on their order.
-/

namespace InjectionCompiler

section

variable {α κ : Type} [DecidableEq κ] {key : α → κ}

theorem firstsFrom_congr {a b : List κ} (h : ∀ k, k ∈ a ↔ k ∈ b) (xs : List α) :
    firstsFrom key a xs = firstsFrom key b xs := by
  induction xs generalizing a b with
  | nil => rfl
  | cons x xs ih =>
      simp only [firstsFrom, h (key x)]
      split
      · exact ih h
      · exact congrArg _ (ih fun k => by simp only [List.mem_cons, h k])

theorem firstsFrom_append (seen : List κ) (xs ys : List α) :
    firstsFrom key seen (xs ++ ys) = firstsFrom key seen xs ++
      firstsFrom key (seen ++ (firstsFrom key seen xs).map key) ys := by
  induction xs generalizing seen with
  | nil => simp [firstsFrom]
  | cons x xs ih =>
      simp only [List.cons_append, firstsFrom]
      split
      · exact ih seen
      · rw [ih, List.cons_append, List.map_cons]
        refine congrArg _ (congrArg _ (firstsFrom_congr (fun k => ?_) ys))
        simp only [List.mem_append, List.mem_cons]
        exact or_left_comm

theorem mem_firsts_iff {xs : List α} {x : α} :
    x ∈ firsts key xs ↔ xs.find? (fun y => key y = key x) = some x := by
  have hfrom : ∀ seen, x ∈ firstsFrom key seen xs ↔
      key x ∉ seen ∧ xs.find? (fun y => key y = key x) = some x := by
    induction xs with
    | nil => simp [firstsFrom]
    | cons y xs ih =>
        intro seen
        by_cases hsame : key y = key x
        · by_cases hseen : key y ∈ seen
          · simp [firstsFrom, hseen, ← hsame, ih]
          · have hrest : x ∉ firstsFrom key (key y :: seen) xs := fun hmem =>
              (mem_of_mem_firstsFrom hmem).2 (hsame ▸ List.mem_cons_self ..)
            simp [firstsFrom, hseen, ← hsame, hrest, eq_comm]
        · have hne : x ≠ y := fun heq => hsame (heq ▸ rfl)
          by_cases hseen : key y ∈ seen <;> simp [firstsFrom, hseen, hsame, Ne.symm hsame, hne, ih]
  rw [firsts, hfrom, and_iff_right List.not_mem_nil]

theorem nodup_map_of_repeats_eq_nil {xs : List α} (h : repeats key xs = []) :
    (xs.map key).Nodup := by
  have hfrom : ∀ seen, repeatsFrom key seen xs = [] →
      (xs.map key).Nodup ∧ ∀ k ∈ xs.map key, k ∉ seen := by
    clear h
    induction xs with
    | nil => exact fun _ _ => ⟨.nil, fun k hk => absurd hk List.not_mem_nil⟩
    | cons x xs ih =>
        intro seen h
        simp only [repeatsFrom] at h
        split at h
        · cases h
        · next hx =>
            obtain ⟨hnodup, hnew⟩ := ih _ h
            have hrest : key x ∉ xs.map key := fun hmem => hnew _ hmem (List.mem_cons_self ..)
            refine ⟨List.nodup_cons.2 ⟨hrest, hnodup⟩, List.forall_mem_cons.2 ⟨hx, ?_⟩⟩
            exact fun k hk hseen => hnew k hk (List.mem_cons_of_mem _ hseen)
  exact (hfrom [] h).1

theorem exists_getElem?_iff_of_findIdx? {xs : List α} (hnodup : (xs.map key).Nodup) {k : κ}
    {index : Nat} (h : (xs.findIdx? fun x => key x = k) = some index) (other : Nat) :
    (∃ x, xs[other]? = some x ∧ key x = k) ↔ other = index := by
  obtain ⟨hlt, hkey, -⟩ := List.findIdx?_eq_some_iff_getElem.1 h
  have hindex : (xs.map key)[index]? = some k := by
    rw [List.getElem?_map, List.getElem?_eq_getElem hlt]
    exact congrArg some (of_decide_eq_true hkey)
  have hlt : index < (xs.map key).length := by rwa [List.length_map]
  rw [eq_comm, ← List.getElem?_inj hlt hnodup, hindex, List.getElem?_map, eq_comm,
    Option.map_eq_some_iff]

theorem firsts_map {β : Type} (change : β → α) (xs : List β) :
    firsts key (xs.map change) = (firsts (key ∘ change) xs).map change := by
  have hfrom : ∀ seen, firstsFrom key seen (xs.map change) =
      (firstsFrom (key ∘ change) seen xs).map change := by
    induction xs with
    | nil => exact fun _ => rfl
    | cons x xs ih =>
        intro seen
        simp only [List.map_cons, firstsFrom, Function.comp_apply]
        split
        · exact ih seen
        · rw [List.map_cons, ih]
  exact hfrom []

variable [DecidableEq α]

theorem nodup_firsts_id (xs : List α) : (firsts id xs).Nodup := by
  rw [← List.map_id (firsts id xs)]
  exact nodup_map_firstsFrom id [] xs

theorem mem_firsts_id {xs : List α} {x : α} : x ∈ firsts id xs ↔ x ∈ xs := by
  have hfirsts := @key_mem_map_firstsFrom _ _ _ id [] xs x
  rwa [List.map_id, List.map_id, and_iff_left List.not_mem_nil] at hfirsts

theorem firsts_id_append_singleton (xs : List α) (x : α) :
    firsts id (xs ++ [x]) = if x ∈ xs then firsts id xs else firsts id xs ++ [x] := by
  rw [firsts, firstsFrom_append, List.nil_append, List.map_id]
  have hmem : x ∈ firstsFrom id [] xs ↔ x ∈ xs := mem_firsts_id
  simp only [firstsFrom, id_eq, hmem]
  split
  · exact List.append_nil _
  · rfl

theorem pairwise_firsts_id (xs : List α) :
    (firsts id xs).Pairwise fun a b => xs.idxOf a < xs.idxOf b := by
  induction xs using List.reverseRecOn with
  | nil => exact .nil
  | append_singleton xs x ih =>
      have hkept : ∀ a ∈ firsts id xs, (xs ++ [x]).idxOf a = xs.idxOf a := fun a ha => by
        rw [List.idxOf_append, if_pos (mem_firsts_id.1 ha)]
      have hfront : (firsts id xs).Pairwise
          fun a b => (xs ++ [x]).idxOf a < (xs ++ [x]).idxOf b := by
        refine ih.imp_of_mem fun ha hb hlt => ?_
        rwa [hkept _ ha, hkept _ hb]
      rw [firsts_id_append_singleton]
      split
      · exact hfront
      · next hx =>
          refine List.pairwise_append.2 ⟨hfront, List.pairwise_singleton _ _, fun a ha b hb => ?_⟩
          rw [List.mem_singleton.1 hb, hkept a ha, List.idxOf_append, if_neg hx]
          have hlt := List.idxOf_lt_length_iff.2 (mem_firsts_id.1 ha)
          omega

end

namespace SearchSpace

variable {α : Type} [DecidableEq α]

theorem unseen_cons_of_mem {seen : List α} {x : α} (h : x ∈ seen) (xs : List α) :
    unseen seen (x :: xs) = unseen seen xs :=
  if_pos h

theorem unseen_congr {a b : List α} (h : ∀ x, x ∈ a ↔ x ∈ b) (xs : List α) :
    unseen a xs = unseen b xs :=
  firstsFrom_congr h xs

theorem unseen_cons_of_not_mem {seen : List α} {x : α} (h : x ∉ seen) (xs : List α) :
    unseen seen (x :: xs) = x :: unseen (seen ++ [x]) xs := by
  have hsame : ∀ y, y ∈ seen ++ [x] ↔ y ∈ x :: seen := fun y => by
    rw [List.mem_append, List.mem_singleton, List.mem_cons, or_comm]
  rw [unseen_congr hsame]
  exact if_neg h

theorem unseen_dropWhile (seen xs : List α) :
    unseen seen (xs.dropWhile (· ∈ seen)) = unseen seen xs := by
  induction xs with
  | nil => rfl
  | cons x xs ih =>
      by_cases h : x ∈ seen
      · rw [List.dropWhile_cons_of_pos (by simpa using h), ih, unseen_cons_of_mem h]
      · rw [List.dropWhile_cons_of_neg (by simpa using h)]

theorem mem_of_dropWhile_eq_cons {seen queue rest : List α} {x y : α}
    (h : queue.dropWhile (· ∈ seen) = x :: rest) (hy : y ∈ queue) :
    y ∈ seen ∨ y = x ∨ y ∈ rest := by
  have hsplit : queue.takeWhile (· ∈ seen) ++ x :: rest = queue := by
    rw [← h, List.takeWhile_append_dropWhile]
  rw [← hsplit, List.mem_append, List.mem_cons] at hy
  exact hy.imp_left fun hseen => by simpa using List.mem_takeWhile_imp hseen

theorem unseen_append_of_subset {seen xs ys : List α} (h : ∀ y ∈ ys, y ∈ seen ∨ y ∈ xs) :
    unseen seen (xs ++ ys) = unseen seen xs := by
  induction xs generalizing seen with
  | nil =>
      induction ys with
      | nil => rfl
      | cons y ys ih =>
          have hy : y ∈ seen := (h y (List.mem_cons_self ..)).resolve_right List.not_mem_nil
          rw [List.nil_append, unseen_cons_of_mem hy]
          exact ih fun z hz => h z (List.mem_cons_of_mem _ hz)
  | cons x xs ih =>
      rw [List.cons_append]
      by_cases hx : x ∈ seen
      · rw [unseen_cons_of_mem hx, unseen_cons_of_mem hx]
        refine ih fun y hy => ?_
        rcases h y hy with hseen | hmem
        · exact .inl hseen
        · rcases List.mem_cons.1 hmem with rfl | hrest
          · exact .inl hx
          · exact .inr hrest
      · rw [unseen_cons_of_not_mem hx, unseen_cons_of_not_mem hx]
        refine congrArg _ (ih fun y hy => ?_)
        rcases h y hy with hseen | hmem
        · exact .inl (List.mem_append_left _ hseen)
        · rcases List.mem_cons.1 hmem with rfl | hrest
          · exact .inl (List.mem_append_right _ (List.mem_singleton_self _))
          · exact .inr hrest

end SearchSpace

end InjectionCompiler
