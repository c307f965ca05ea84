import InjectionCompiler.Search
import Mathlib.Data.List.Perm.Subperm
import Mathlib.Logic.Relation

/-!
# What a search finds

A search lists each node once.  `reach` lists exactly the nodes that the root leads to, and
`descend` exactly those that it leads to by at least one step.
-/

namespace InjectionCompiler.SearchSpace

variable {α : Type}

/-- One step of a search space. -/
def Step (space : SearchSpace α) (a b : α) : Prop := b ∈ space.next a

theorem leads_iff {space : SearchSpace α} {a b : α} :
    space.Leads a b ↔ Relation.ReflTransGen space.Step a b := by
  constructor
  · intro h
    induction h with
    | refl => exact .refl
    | step _ hstep ih => exact ih.tail hstep
  · intro h
    induction h with
    | refl => exact .refl _
    | tail _ hstep ih => exact .step ih hstep

variable [DecidableEq α]

theorem mem_visit_of_mem_listed {space : SearchSpace α} {listed queue : List α} {x : α}
    (hx : x ∈ listed) : x ∈ space.visit listed queue := by
  fun_induction visit space listed queue with
  | case1 => exact hx
  | case2 _ _ _ _ ih => exact ih (List.mem_append_left _ hx)

theorem nodup_visit {space : SearchSpace α} {listed queue : List α} (h : listed.Nodup) :
    (space.visit listed queue).Nodup := by
  fun_induction visit space listed queue with
  | case1 => exact h
  | case2 listed node rest fresh ih =>
      refine ih (List.nodup_append.2 ⟨h, nodup_unseen _ _, ?_⟩)
      intro x hx y hy hxy
      exact (mem_unseen.1 hy).2 (hxy ▸ hx)

theorem mem_visit {space : SearchSpace α} {listed queue : List α} {x : α}
    (hx : x ∈ space.visit listed queue) :
    x ∈ listed ∨ ∃ node ∈ queue, Relation.TransGen space.Step node x := by
  fun_induction visit space listed queue with
  | case1 => exact .inl hx
  | case2 listed node rest fresh ih =>
      have hfresh : ∀ y ∈ fresh, space.Step node y := fun y hy => (mem_unseen.1 hy).1
      rcases ih hx with hlisted | ⟨start, hstart, hway⟩
      · rcases List.mem_append.1 hlisted with hold | hnew
        · exact .inl hold
        · exact .inr ⟨node, List.mem_cons_self .., .single (hfresh x hnew)⟩
      · rcases List.mem_append.1 hstart with hrest | hnew
        · exact .inr ⟨start, List.mem_cons_of_mem _ hrest, hway⟩
        · exact .inr ⟨node, List.mem_cons_self .., .head (hfresh start hnew) hway⟩

theorem mem_visit_of_queue {space : SearchSpace α} {listed queue : List α} {x y : α}
    (hx : x ∈ queue) (hy : space.Step x y) : y ∈ space.visit listed queue := by
  fun_induction visit space listed queue with
  | case1 => cases hx
  | case2 listed node rest fresh ih =>
      rcases List.mem_cons.1 hx with rfl | hrest
      · apply mem_visit_of_mem_listed
        by_cases hlisted : y ∈ listed
        · exact List.mem_append_left _ hlisted
        · exact List.mem_append_right _ (mem_unseen.2 ⟨hy, hlisted⟩)
      · exact ih (List.mem_append_left _ hrest)

theorem visit_closed {space : SearchSpace α} {listed queue : List α}
    (h : ∀ x ∈ listed, x ∈ queue ∨ ∀ y, space.Step x y → y ∈ listed) {x y : α}
    (hx : x ∈ space.visit listed queue) (hy : space.Step x y) :
    y ∈ space.visit listed queue := by
  -- The invariant is that only queued nodes may still have successors that are not listed.
  fun_induction visit space listed queue with
  | case1 listed => exact (h x hx).resolve_left (by simp) y hy
  | case2 listed node rest fresh ih =>
      refine ih ?_ hx
      intro z hz
      rcases List.mem_append.1 hz with hold | hnew
      · rcases h z hold with hqueue | hclosed
        · rcases List.mem_cons.1 hqueue with rfl | hrest
          · refine .inr fun w hw => ?_
            by_cases hlisted : w ∈ listed
            · exact List.mem_append_left _ hlisted
            · exact List.mem_append_right _ (mem_unseen.2 ⟨hw, hlisted⟩)
          · exact .inl (List.mem_append_left _ hrest)
        · exact .inr fun w hw => List.mem_append_left _ (hclosed w hw)
      · exact .inl (List.mem_append_right _ hnew)

/-! ## The two searches -/

theorem nodup_reach (space : SearchSpace α) (root : α) : (space.reach root).Nodup :=
  nodup_visit (List.pairwise_singleton _ root)

theorem nodup_descend (space : SearchSpace α) (root : α) : (space.descend root).Nodup :=
  nodup_visit .nil

theorem mem_reach_iff {space : SearchSpace α} {root node : α} :
    node ∈ space.reach root ↔ space.Leads root node := by
  rw [leads_iff]
  constructor
  · intro h
    rcases mem_visit h with hroot | ⟨start, hstart, hway⟩
    · rw [List.mem_singleton.1 hroot]
    · rw [← List.mem_singleton.1 hstart]
      exact hway.to_reflTransGen
  · intro h
    induction h with
    | refl => exact mem_visit_of_mem_listed (List.mem_singleton_self root)
    | tail _ hstep ih => exact visit_closed (fun x hx => .inl hx) ih hstep

theorem mem_descend_iff {space : SearchSpace α} {root node : α} :
    node ∈ space.descend root ↔ Relation.TransGen space.Step root node := by
  constructor
  · intro h
    rcases mem_visit h with hnone | ⟨start, hstart, hway⟩
    · cases hnone
    · rwa [← List.mem_singleton.1 hstart]
  · intro h
    induction h with
    | single hstep => exact mem_visit_of_queue (List.mem_singleton_self root) hstep
    | tail _ hstep ih => exact visit_closed (by simp) ih hstep

theorem visit_congr {space other : SearchSpace α} (h : other.next = space.next)
    (listed queue : List α) : other.visit listed queue = space.visit listed queue := by
  fun_induction visit space listed queue with
  | case1 listed => rw [visit]
  | case2 listed node rest fresh ih => rw [visit, h, ih]

theorem length_descend_lt {space : SearchSpace α}
    (hacyclic : ∀ node, ¬ Relation.TransGen space.Step node node) {a b : α}
    (hstep : space.Step a b) : (space.descend b).length < (space.descend a).length := by
  have hnodup : (b :: space.descend b).Nodup :=
    List.nodup_cons.2 ⟨fun h => hacyclic b (mem_descend_iff.1 h), nodup_descend _ _⟩
  have hsub : (b :: space.descend b) ⊆ space.descend a := by
    intro x hx
    rcases List.mem_cons.1 hx with rfl | hx
    · exact mem_descend_iff.2 (.single hstep)
    · exact mem_descend_iff.2 (.head hstep (mem_descend_iff.1 hx))
  exact (List.Nodup.subperm hnodup hsub).length_le

theorem wellFounded_of_acyclic {space : SearchSpace α}
    (hacyclic : ∀ node, ¬ Relation.TransGen space.Step node node) :
    WellFounded fun b a => space.Step a b :=
  Subrelation.wf (length_descend_lt hacyclic)
    (measure fun node => (space.descend node).length).wf

end InjectionCompiler.SearchSpace
