import InjectionCompiler.Firsts

/-!
# Breadth-first search

A search space gives the successors of every node and a finite list that holds all of them, which
is what makes a search end, whatever cycles there are.
-/

namespace InjectionCompiler

structure SearchSpace (α : Type) where
  next : α → List α
  /-- Everything that is a successor of some node. -/
  bound : List α
  closed : ∀ {node successor : α}, successor ∈ next node → successor ∈ bound

namespace SearchSpace

variable {α : Type} [DecidableEq α]

/-- The members of a list that are not in `seen`, each where it first occurs. -/
def unseen (seen xs : List α) : List α :=
  firstsFrom id seen xs

theorem mem_unseen {seen xs : List α} {x : α} :
    x ∈ unseen seen xs ↔ x ∈ xs ∧ x ∉ seen := by
  simpa [unseen] using @key_mem_map_firstsFrom α α _ id seen xs x

theorem nodup_unseen (seen xs : List α) : (unseen seen xs).Nodup := by
  simpa [unseen] using nodup_map_firstsFrom id seen xs

/-! ## The number of nodes still to be found -/

/-- How many places of `bound` hold something outside `seen`. -/
def remaining (bound seen : List α) : Nat :=
  bound.countP fun x => x ∉ seen

theorem remaining_append_singleton {bound seen : List α} {x : α} (hx : x ∈ bound)
    (hseen : x ∉ seen) : remaining bound (seen ++ [x]) < remaining bound seen := by
  unfold remaining
  induction bound with
  | nil => simp at hx
  | cons y ys ih =>
      have le : ys.countP (fun z => decide (z ∉ seen ++ [x])) ≤
          ys.countP (fun z => decide (z ∉ seen)) :=
        List.countP_mono_left fun z _ hz => by simp at hz ⊢; exact hz.1
      by_cases hy : y = x
      · subst hy
        rw [List.countP_cons_of_neg (by simp), List.countP_cons_of_pos (by simpa using hseen)]
        omega
      · have hx' : x ∈ ys := by
          rcases List.mem_cons.1 hx with h | h
          · exact absurd h.symm hy
          · exact h
        have lt := ih hx'
        by_cases hys : y ∈ seen
        · rw [List.countP_cons_of_neg (by simp [hys]), List.countP_cons_of_neg (by simp [hys])]
          exact lt
        · rw [List.countP_cons_of_pos (by simp [hys, hy]), List.countP_cons_of_pos (by simp [hys])]
          omega

theorem remaining_append {bound seen fresh : List α} (hsub : ∀ x ∈ fresh, x ∈ bound)
    (hnew : ∀ x ∈ fresh, x ∉ seen) (hnodup : fresh.Nodup) :
    remaining bound (seen ++ fresh) + fresh.length ≤ remaining bound seen := by
  induction fresh generalizing seen with
  | nil => simp
  | cons x xs ih =>
      have hx := remaining_append_singleton (hsub x (by simp)) (hnew x (by simp))
      have hxs := @ih (seen ++ [x]) (fun y hy => hsub y (by simp [hy]))
        (fun y hy => by
          simp only [List.mem_append, List.mem_singleton, not_or]
          exact ⟨hnew y (by simp [hy]), fun h => (List.nodup_cons.1 hnodup).1 (h ▸ hy)⟩)
        (List.nodup_cons.1 hnodup).2
      simp only [List.append_assoc, List.singleton_append, List.length_cons] at hxs ⊢
      omega

/-! ## The search -/

/-- Takes the nodes of the queue in turn; what a node leads to for the first time is listed and
queued. -/
def visit (space : SearchSpace α) (listed queue : List α) : List α :=
  match queue with
  | [] => listed
  | node :: rest =>
      let fresh := unseen listed (space.next node)
      visit space (listed ++ fresh) (rest ++ fresh)
  termination_by remaining space.bound listed + queue.length
  decreasing_by
    have h := @remaining_append α _ space.bound listed (unseen listed (space.next node))
      (fun x hx => space.closed (mem_unseen.1 hx).1) (fun x hx => (mem_unseen.1 hx).2)
      (nodup_unseen _ _)
    simp only [List.length_append, List.length_cons]
    omega

/-- `root` and everything it leads to, nearest first. -/
def reach (space : SearchSpace α) (root : α) : List α :=
  visit space [root] [root]

/-- Everything `root` leads to, nearest first.  The root itself is listed only where some node
leads back to it. -/
def descend (space : SearchSpace α) (root : α) : List α :=
  visit space [] [root]

/-- `Leads space a b`: there is a way of any length from `a` to `b`. -/
inductive Leads (space : SearchSpace α) : α → α → Prop where
  | refl (node : α) : Leads space node node
  | step {a b c : α} : Leads space a b → c ∈ space.next b → Leads space a c

end SearchSpace

end InjectionCompiler
