import InjectionCompiler.Proofs.Firsts
import InjectionCompiler.Proofs.Worklists
import Mathlib.Order.Lattice.Nat

/-!
# Breadth-first order

A search that takes its queue in order lists one level after another: first what is one step away,
then what is two steps away and no less, and so on.  Within a level the nodes stand in the order of
the nodes that led to them.
-/

namespace InjectionCompiler

namespace SearchSpace

variable {α : Type} {space : SearchSpace α}

/-! ## Walks -/

inductive Walk (space : SearchSpace α) : Nat → α → α → Prop where
  | nil (node : α) : space.Walk 0 node node
  | snoc {length : Nat} {a b c : α} :
      space.Walk length a b → space.Step b c → space.Walk (length + 1) a c

theorem walk_zero_iff {a b : α} : space.Walk 0 a b ↔ b = a := by
  constructor
  · rintro ⟨⟩
    rfl
  · rintro rfl
    exact .nil _

/-- The length of the shortest walk among those of at least `least` steps. -/
noncomputable def distance (space : SearchSpace α) (least : Nat) (root node : α) : Nat :=
  sInf {length | least ≤ length ∧ space.Walk length root node}

theorem exists_walk_of_leads {a b : α} (h : space.Leads a b) : ∃ length, space.Walk length a b := by
  induction h with
  | refl => exact ⟨0, .nil _⟩
  | step _ hstep ih =>
      obtain ⟨length, hwalk⟩ := ih
      exact ⟨length + 1, .snoc hwalk hstep⟩

theorem exists_walk_of_transGen {a b : α} (h : Relation.TransGen space.Step a b) :
    ∃ length, 1 ≤ length ∧ space.Walk length a b := by
  induction h with
  | single hstep => exact ⟨1, by omega, .snoc (.nil _) hstep⟩
  | tail _ hstep ih =>
      obtain ⟨length, hlength, hwalk⟩ := ih
      exact ⟨length + 1, by omega, .snoc hwalk hstep⟩

section

variable {least length : Nat} {root node : α}

theorem distance_spec (hleast : least ≤ length) (hwalk : space.Walk length root node) :
    least ≤ space.distance least root node ∧
      space.Walk (space.distance least root node) root node :=
  Nat.sInf_mem (s := {length | least ≤ length ∧ space.Walk length root node})
    ⟨length, hleast, hwalk⟩

theorem distance_le (hleast : least ≤ length) (hwalk : space.Walk length root node) :
    space.distance least root node ≤ length := by
  apply Nat.sInf_le
  exact ⟨hleast, hwalk⟩

theorem distance_eq (hleast : least ≤ length) (hwalk : space.Walk length root node)
    (hshortest : ∀ other, least ≤ other → other < length → ¬ space.Walk other root node) :
    space.distance least root node = length := by
  obtain ⟨hover, hshort⟩ := distance_spec hleast hwalk
  have hle := distance_le hleast hwalk
  have hnot := hshortest _ hover
  by_contra hne
  exact hnot (by omega) hshort

end

/-! ## Levels -/

/-- The search has listed what is at most `depth` steps away, and goes on from what is just as far
as that. -/
structure Level (space : SearchSpace α) (least : Nat) (root : α) (depth : Nat)
    (listed queue : List α) : Prop where
  mem_listed : ∀ node, node ∈ listed ↔
    ∃ length, least ≤ length ∧ length ≤ depth ∧ space.Walk length root node
  mem_queue : ∀ node, node ∈ queue ↔ space.Walk depth root node ∧
    ∀ length, least ≤ length → length < depth → ¬ space.Walk length root node

variable [DecidableEq α]

theorem unseen_append (seen xs ys : List α) :
    unseen seen (xs ++ ys) = unseen seen xs ++ unseen (seen ++ unseen seen xs) ys := by
  simpa [unseen] using @firstsFrom_append α α _ id seen xs ys

theorem visit_append (space : SearchSpace α) (listed queue later : List α) :
    space.visit listed (queue ++ later) =
      space.visit (listed ++ unseen listed (queue.flatMap space.next))
        (later ++ unseen listed (queue.flatMap space.next)) := by
  induction queue generalizing listed later with
  | nil => simp [unseen, firstsFrom]
  | cons node queue ih =>
      rw [List.cons_append, visit]
      simp only [List.append_assoc]
      rw [ih, List.flatMap_cons, unseen_append]
      simp only [List.append_assoc]

section

variable {least depth : Nat} {root : α} {listed queue : List α}

theorem Level.mem_unseen_iff (h : space.Level least root depth listed queue) {node : α} :
    node ∈ unseen listed (queue.flatMap space.next) ↔ space.Walk (depth + 1) root node ∧
      ∀ length, least ≤ length → length < depth + 1 → ¬ space.Walk length root node := by
  rw [mem_unseen, List.mem_flatMap, h.mem_listed]
  constructor
  · rintro ⟨⟨before, hbefore, hstep⟩, hnew⟩
    refine ⟨.snoc ((h.mem_queue before).1 hbefore).1 hstep, ?_⟩
    intro length hlength hlt hwalk
    exact hnew ⟨length, hlength, by omega, hwalk⟩
  · rintro ⟨hwalk, hshortest⟩
    cases hwalk with
    | @snoc _ _ before _ hbefore hstep =>
        refine ⟨⟨before, (h.mem_queue before).2 ⟨hbefore, ?_⟩, hstep⟩, ?_⟩
        · intro length hlength hlt hwalk
          exact hshortest (length + 1) (by omega) (by omega) (.snoc hwalk hstep)
        · rintro ⟨length, hlength, hle, hwalk⟩
          exact hshortest length hlength (by omega) hwalk

theorem Level.next (h : space.Level least root depth listed queue) (hleast : least ≤ depth + 1) :
    space.Level least root (depth + 1)
      (listed ++ unseen listed (queue.flatMap space.next))
      (unseen listed (queue.flatMap space.next)) := by
  refine ⟨fun node => ?_, fun node => h.mem_unseen_iff⟩
  rw [List.mem_append, h.mem_listed, h.mem_unseen_iff]
  constructor
  · rintro (⟨length, hlength, hle, hwalk⟩ | ⟨hwalk, -⟩)
    · exact ⟨length, hlength, by omega, hwalk⟩
    · exact ⟨depth + 1, hleast, by omega, hwalk⟩
  · rintro ⟨length, hlength, hle, hwalk⟩
    by_cases hlisted : ∃ length, least ≤ length ∧ length ≤ depth ∧ space.Walk length root node
    · exact .inl hlisted
    · have hlast : length = depth + 1 := by
        by_contra hne
        exact hlisted ⟨length, hlength, by omega, hwalk⟩
      subst hlast
      refine .inr ⟨hwalk, fun other hother hlt hshort => ?_⟩
      exact hlisted ⟨other, hother, by omega, hshort⟩

theorem Level.pairwise_visit (h : space.Level least root depth listed queue)
    (hleast : least ≤ depth + 1)
    (hlisted : listed.Pairwise fun a b =>
      space.distance least root a ≤ space.distance least root b) :
    (space.visit listed queue).Pairwise fun a b =>
      space.distance least root a ≤ space.distance least root b := by
  -- By induction on what is left to be found, one level at a time.
  induction hsize : remaining space.bound listed using Nat.strong_induction_on
    generalizing depth listed queue with
  | _ size ih =>
      have hlevel := h.next hleast
      have hvisit := space.visit_append listed queue []
      simp only [List.append_nil, List.nil_append] at hvisit
      rw [hvisit]
      have hbound : ∀ node ∈ unseen listed (queue.flatMap space.next), node ∈ space.bound := by
        intro node hnode
        obtain ⟨before, -, hstep⟩ := List.mem_flatMap.1 (mem_unseen.1 hnode).1
        exact space.closed hstep
      have hless := remaining_append hbound (fun node hnode => (mem_unseen.1 hnode).2)
        (nodup_unseen listed (queue.flatMap space.next))
      generalize unseen listed (queue.flatMap space.next) = fresh at hlevel hless
      cases fresh with
      | nil =>
          rw [List.append_nil, visit]
          exact hlisted
      | cons first others =>
          rw [List.length_cons] at hless
          apply ih _ (by omega) hlevel (by omega) _ rfl
          apply List.pairwise_append.2
          have hfar : ∀ node ∈ first :: others, space.distance least root node = depth + 1 := by
            intro node hnode
            obtain ⟨hwalk, hshortest⟩ := (hlevel.mem_queue node).1 hnode
            exact distance_eq hleast hwalk hshortest
          refine ⟨hlisted, List.pairwise_of_forall_mem_list fun a ha b hb => ?_,
            fun a ha b hb => ?_⟩
          · rw [hfar a ha, hfar b hb]
          · obtain ⟨length, hlength, hle, hwalk⟩ := (h.mem_listed a).1 ha
            have hnear := distance_le hlength hwalk
            rw [hfar b hb]
            omega

end

/-! ## Ties -/

/-- The first node of `taken` that leads to `a` stands before the first that leads to `b`, or both
are one and it leads to `a` first. -/
def FoundBefore (space : SearchSpace α) (taken : List α) (a b : α) : Prop :=
  ∃ p q, taken.find? (fun node => a ∈ space.next node) = some p ∧
    taken.find? (fun node => b ∈ space.next node) = some q ∧
    (taken.idxOf p < taken.idxOf q ∨
      p = q ∧ (space.next p).idxOf a < (space.next p).idxOf b)

theorem FoundBefore.asymm {taken : List α} {a b : α} (h : space.FoundBefore taken a b) :
    ¬ space.FoundBefore taken b a := by
  obtain ⟨p, q, hp, hq, hbefore⟩ := h
  rintro ⟨q', p', hq', hp', hafter⟩
  obtain rfl : q = q' := Option.some.inj (hq.symm.trans hq')
  obtain rfl : p = p' := Option.some.inj (hp.symm.trans hp')
  rcases hbefore with hlt | ⟨rfl, hlt⟩ <;> rcases hafter with hgt | ⟨heq, hgt⟩
  · omega
  · subst heq
    omega
  · omega
  · omega

theorem ne_of_find? {taken : List α} {node first a : α} (hnode : a ∉ space.next node)
    (h : taken.find? (fun node => a ∈ space.next node) = some first) : node ≠ first := by
  rintro rfl
  exact hnode (by simpa using List.find?_some h)

theorem exists_finder (space : SearchSpace α) {taken : List α} {node a : α} (hnode : node ∈ taken)
    (ha : a ∈ space.next node) :
    ∃ first, taken.find? (fun node => a ∈ space.next node) = some first ∧ first ∈ taken ∧
      taken.idxOf first ≤ taken.idxOf node := by
  induction taken with
  | nil => simp at hnode
  | cons other taken ih =>
      by_cases hother : a ∈ space.next other
      · exact ⟨other, by simp [hother], by simp, by simp⟩
      · have hne : other ≠ node := by
          rintro rfl
          exact hother ha
        obtain ⟨first, hfirst, hmem, hle⟩ := ih ((List.mem_cons.1 hnode).resolve_left hne.symm)
        refine ⟨first, by simp [hother, hfirst], by simp [hmem], ?_⟩
        rw [List.idxOf_cons_ne _ hne, List.idxOf_cons_ne _ (ne_of_find? hother hfirst)]
        omega

theorem foundBefore_of_idxOf_lt {taken : List α} {a b : α} (ha : a ∈ taken.flatMap space.next)
    (hb : b ∈ taken.flatMap space.next)
    (h : (taken.flatMap space.next).idxOf a < (taken.flatMap space.next).idxOf b) :
    space.FoundBefore taken a b := by
  induction taken with
  | nil => simp at ha
  | cons node taken ih =>
      rw [List.flatMap_cons] at ha hb h
      rw [List.idxOf_append, List.idxOf_append] at h
      -- `node` finds both, only the first, or neither of them; it cannot find the later one alone.
      by_cases hnode : a ∈ space.next node
      · rw [if_pos hnode] at h
        by_cases hboth : b ∈ space.next node
        · rw [if_pos hboth] at h
          exact ⟨node, node, by simp [hnode], by simp [hboth], .inr ⟨rfl, h⟩⟩
        · obtain ⟨other, hother, hstep⟩ :=
            List.mem_flatMap.1 ((List.mem_append.1 hb).resolve_left hboth)
          obtain ⟨q, hq, -, -⟩ := space.exists_finder hother hstep
          refine ⟨node, q, by simp [hnode], by simp [hboth, hq], .inl ?_⟩
          simp [List.idxOf_cons_ne _ (ne_of_find? hboth hq)]
      · rw [if_neg hnode] at h
        have hboth : b ∉ space.next node := by
          intro hmem
          rw [if_pos hmem] at h
          have hlt := List.idxOf_lt_length_iff.2 hmem
          omega
        rw [if_neg hboth] at h
        obtain ⟨p, q, hp, hq, hbefore⟩ := ih
          ((List.mem_append.1 ha).resolve_left hnode) ((List.mem_append.1 hb).resolve_left hboth)
          (by omega)
        refine ⟨p, q, by simp [hnode, hp], by simp [hboth, hq], ?_⟩
        simpa [List.idxOf_cons_ne _ (ne_of_find? hnode hp),
          List.idxOf_cons_ne _ (ne_of_find? hboth hq)] using hbefore

theorem pairwise_unseen (seen xs : List α) :
    (unseen seen xs).Pairwise fun a b => xs.idxOf a < xs.idxOf b := by
  induction xs generalizing seen with
  | nil => exact .nil
  | cons x xs ih =>
      have hlater : ∀ seen, x ∈ seen → (unseen seen xs).Pairwise fun a b =>
          (x :: xs).idxOf a < (x :: xs).idxOf b := by
        intro seen hx
        apply (ih seen).imp_of_mem
        intro a b ha hb hlt
        have hane : x ≠ a := fun heq => (mem_unseen.1 ha).2 (heq ▸ hx)
        have hbne : x ≠ b := fun heq => (mem_unseen.1 hb).2 (heq ▸ hx)
        simpa [List.idxOf_cons_ne _ hane, List.idxOf_cons_ne _ hbne] using hlt
      by_cases hx : x ∈ seen
      · rw [unseen_cons_of_mem hx]
        exact hlater seen hx
      · rw [unseen_cons_of_not_mem hx]
        refine List.pairwise_cons.2 ⟨fun b hb => ?_, hlater _ (by simp)⟩
        have hne : x ≠ b := by
          rintro rfl
          simpa using (mem_unseen.1 hb).2
        simp [List.idxOf_cons_ne _ hne]

theorem pairwise_foundBefore (space : SearchSpace α) (seen taken : List α) :
    (unseen seen (taken.flatMap space.next)).Pairwise (space.FoundBefore taken) := by
  apply (pairwise_unseen seen _).imp_of_mem
  intro a b ha hb hlt
  exact foundBefore_of_idxOf_lt (mem_unseen.1 ha).1 (mem_unseen.1 hb).1 hlt

theorem exists_visit_eq (space : SearchSpace α) (listed queue : List α) :
    ∃ found, space.visit listed queue = listed ++ found ∧
      found = unseen listed ((queue ++ found).flatMap space.next) := by
  fun_induction visit space listed queue with
  | case1 listed => exact ⟨[], by simp, by simp [unseen, firstsFrom]⟩
  | case2 listed node rest fresh ih =>
      obtain ⟨found, hvisit, hfound⟩ := ih
      refine ⟨fresh ++ found, by simp [hvisit], ?_⟩
      rw [List.cons_append, List.flatMap_cons, unseen_append, ← List.append_assoc, ← hfound]

/-! ## The two searches -/

/-- Nearer nodes stand first, and of two that are equally near the one that is found first while
the nodes of `taken` are taken in turn. -/
structure BreadthFirst (space : SearchSpace α) (least : Nat) (root : α)
    (taken found : List α) : Prop where
  walks : ∀ node ∈ found, least ≤ space.distance least root node ∧
    space.Walk (space.distance least root node) root node
  nearest_first : found.Pairwise fun a b =>
    space.distance least root a ≤ space.distance least root b
  ties : found.Pairwise fun a b =>
    space.distance least root a = space.distance least root b → space.FoundBefore taken a b

theorem breadthFirst_reach (space : SearchSpace α) (root : α) :
    space.BreadthFirst 0 root (space.reach root) (space.reach root) := by
  have hwalks : ∀ node ∈ space.reach root, 0 ≤ space.distance 0 root node ∧
      space.Walk (space.distance 0 root node) root node := by
    intro node hnode
    obtain ⟨length, hwalk⟩ := exists_walk_of_leads (mem_reach_iff.1 hnode)
    exact distance_spec (Nat.zero_le length) hwalk
  obtain ⟨found, hvisit, hfound⟩ := space.exists_visit_eq [root] [root]
  have hreach : space.reach root = root :: found := hvisit
  refine ⟨hwalks, ?_, ?_⟩
  · have hlevel : space.Level 0 root 0 [root] [root] := by
      constructor <;> simp [walk_zero_iff]
    exact hlevel.pairwise_visit (by omega) (List.pairwise_singleton _ _)
  · rw [hreach]
    refine List.pairwise_cons.2 ⟨fun b hb heq => ?_, ?_⟩
    · have hself : space.distance 0 root root ≤ 0 := distance_le le_rfl (.nil root)
      have hwalk := (hwalks b (by simp [hreach, hb])).2
      rw [← heq, Nat.le_zero.1 hself, walk_zero_iff] at hwalk
      rw [hfound, hwalk] at hb
      simpa using (mem_unseen.1 hb).2
    · have hpairs := space.pairwise_foundBefore [root] ([root] ++ found)
      rw [← hfound] at hpairs
      apply hpairs.imp
      intro a b hbefore _
      exact hbefore

theorem pairwise_descend (space : SearchSpace α) (root : α) :
    (space.descend root).Pairwise (space.FoundBefore (root :: space.descend root)) := by
  obtain ⟨found, hvisit, hfound⟩ := space.exists_visit_eq [] [root]
  have hdescend : space.descend root = found := hvisit
  have hpairs := space.pairwise_foundBefore [] ([root] ++ found)
  rw [← hfound] at hpairs
  rw [hdescend]
  exact hpairs

theorem breadthFirst_descend (space : SearchSpace α) (root : α) :
    space.BreadthFirst 1 root (root :: space.descend root) (space.descend root) := by
  refine ⟨fun node hnode => ?_, ?_, ?_⟩
  · obtain ⟨length, hlength, hwalk⟩ := exists_walk_of_transGen (mem_descend_iff.1 hnode)
    exact distance_spec hlength hwalk
  · have hlevel : space.Level 1 root 0 [] [root] := by
      constructor
      · intro node
        simp only [List.not_mem_nil, false_iff]
        rintro ⟨length, hlength, hle, -⟩
        omega
      · simp [walk_zero_iff]
    exact hlevel.pairwise_visit (by omega) .nil
  · apply (pairwise_descend space root).imp
    intro a b hbefore _
    exact hbefore

end SearchSpace

end InjectionCompiler
