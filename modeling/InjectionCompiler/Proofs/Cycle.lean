import InjectionCompiler.Cycle
import InjectionCompiler.Proofs.Search

/-!
# Relations without cycles

A relation has no cycle exactly when its nodes can be ranked so that every edge goes down.  The
rank of a node is the number of nodes below it: along an edge that is on no cycle the target drops
out of what is below.
-/

namespace InjectionCompiler.Cycle

open Relation

variable {α : Type}

def Edge (edges : List (α × α)) (a b : α) : Prop := (a, b) ∈ edges

variable {edges : List (α × α)}

theorem rank_lt_of_leads {rank : α → Nat} (hrank : ∀ a b, Edge edges a b → rank b < rank a)
    {a b : α} (h : TransGen (Edge edges) a b) : rank b < rank a := by
  induction h with
  | single hedge => exact hrank _ _ hedge
  | tail _ hedge ih => exact Nat.lt_trans (hrank _ _ hedge) ih

variable [DecidableEq α]

theorem mem_nodes_left {a b : α} (h : Edge edges a b) : a ∈ nodes edges := by
  have hkeys := @key_mem_map_firstsFrom _ _ _ id [] (edges.flatMap fun edge => [edge.1, edge.2]) a
  simp only [id_eq, List.map_id_fun, List.not_mem_nil, not_false_eq_true, and_true] at hkeys
  exact hkeys.2 (List.mem_flatMap.2 ⟨(a, b), h, by simp⟩)

theorem step_space : (space edges).Step = Edge edges := by
  funext a b
  simp only [SearchSpace.Step, space, successors, List.mem_map, List.mem_filter, Prod.exists,
    decide_eq_true_eq, Edge, eq_iff_iff]
  constructor
  · rintro ⟨x, y, ⟨hedge, rfl⟩, rfl⟩
    exact hedge
  · exact fun h => ⟨a, b, ⟨h, rfl⟩, rfl⟩

theorem mem_below {a b : α} : b ∈ below edges a ↔ TransGen (Edge edges) a b := by
  rw [below, SearchSpace.mem_descend_iff, step_space]

theorem mem_nodes_of_leads {a b : α} (h : TransGen (Edge edges) a b) : a ∈ nodes edges := by
  obtain ⟨c, hedge, -⟩ := TransGen.head'_iff.1 h
  exact mem_nodes_left hedge

/-! ## Components -/

private theorem lookup_map {β : Type} (f : α → β) (xs : List α) (a : α) :
    (xs.map fun x => (x, f x)).lookup a = if a ∈ xs then some (f a) else none := by
  induction xs with
  | nil => rfl
  | cons x xs ih =>
      by_cases h : a = x
      · simp [h]
      · have hne : (a == x) = false := by simpa using h
        simp only [List.map_cons, List.lookup_cons, hne, ih, List.mem_cons, h, false_or]

theorem leads_closure {a b : α} :
    (closure edges).leads a b = true ↔ TransGen (Edge edges) a b := by
  unfold closure Closure.leads
  rw [lookup_map]
  split
  · simp [mem_below]
  · next hnode =>
      simp only [Option.getD_none, List.contains_nil, Bool.false_eq_true, false_iff]
      exact fun h => hnode (mem_nodes_of_leads h)

theorem mem_component {node other : α} :
    other ∈ (closure edges).component node ↔
      TransGen (Edge edges) node other ∧ TransGen (Edge edges) other node := by
  simp only [Closure.component, List.mem_filter, Bool.and_eq_true, leads_closure]
  constructor
  · exact fun h => h.2
  · intro h
    refine ⟨?_, h⟩
    simpa [closure] using mem_nodes_of_leads h.2

theorem component_congr {a b : α} (hab : TransGen (Edge edges) a b)
    (hba : TransGen (Edge edges) b a) :
    (closure edges).component a = (closure edges).component b := by
  unfold Closure.component
  apply List.filter_congr
  intro other _
  rw [Bool.eq_iff_iff]
  simp only [Bool.and_eq_true, leads_closure]
  constructor
  · exact fun ⟨hto, hfrom⟩ => ⟨hba.trans hto, hfrom.trans hab⟩
  · exact fun ⟨hto, hfrom⟩ => ⟨hab.trans hto, hfrom.trans hba⟩

/-! ## The absence of cycles -/

theorem cycles_eq_nil_iff : cycles edges = [] ↔ ∀ a, ¬ TransGen (Edge edges) a a := by
  constructor
  · intro hnil a hcycle
    have hmem := mem_component.2 ⟨hcycle, hcycle⟩
    -- The component is listed at its own head, which need not be `a`.
    cases hcomponent : (closure edges).component a with
    | nil => simp [hcomponent] at hmem
    | cons head rest =>
        have hhead : head ∈ (closure edges).component a := by simp [hcomponent]
        obtain ⟨hto, hfrom⟩ := mem_component.1 hhead
        have hsame := component_congr hfrom hto
        have hlisted : (head :: rest) ∈ cycles edges := by
          refine List.mem_filterMap.2 ⟨head, mem_nodes_of_leads hfrom, ?_⟩
          simp [hsame, hcomponent]
        simp [hnil] at hlisted
  · intro hacyclic
    refine List.filterMap_eq_nil_iff.2 fun node _ => ?_
    have hempty : (closure edges).component node = [] := by
      refine List.eq_nil_iff_forall_not_mem.2 fun other hother => ?_
      obtain ⟨hto, hfrom⟩ := mem_component.1 hother
      exact hacyclic node (hto.trans hfrom)
    simp [hempty]

theorem length_below_lt (hacyclic : ∀ a, ¬ TransGen (Edge edges) a a) {a b : α}
    (hedge : Edge edges a b) : (below edges b).length < (below edges a).length := by
  rw [← step_space] at hacyclic hedge
  exact SearchSpace.length_descend_lt hacyclic hedge

theorem cycles_eq_nil_iff_rank :
    cycles edges = [] ↔ ∃ rank : α → Nat, ∀ a b, Edge edges a b → rank b < rank a := by
  rw [cycles_eq_nil_iff]
  constructor
  · exact fun hacyclic => ⟨fun a => (below edges a).length, fun _ _ => length_below_lt hacyclic⟩
  · rintro ⟨rank, hrank⟩ a hcycle
    exact Nat.lt_irrefl _ (rank_lt_of_leads hrank hcycle)

/-! ## The number of cycles -/

/-- The cycles without the order of their nodes. -/
def cycleSets (edges : List (α × α)) : List (Set α) :=
  (cycles edges).map fun cycle => {node | node ∈ cycle}

theorem mem_cycles {cycle : List α} : cycle ∈ cycles edges ↔
    ∃ node ∈ nodes edges, (closure edges).component node = cycle ∧ cycle.head? = some node := by
  simp only [cycles, List.mem_filterMap]
  refine exists_congr fun node => and_congr_right fun _ => ?_
  constructor
  · intro h
    split_ifs at h with hhead
    cases h
    exact ⟨rfl, hhead⟩
  · rintro ⟨rfl, hhead⟩
    rw [if_pos hhead]

theorem mem_cycleSets {nodes : Set α} : nodes ∈ cycleSets edges ↔
    ∃ a, TransGen (Edge edges) a a ∧
      nodes = {b | TransGen (Edge edges) a b ∧ TransGen (Edge edges) b a} := by
  have hset : ∀ a, {b | b ∈ (closure edges).component a} =
      {b | TransGen (Edge edges) a b ∧ TransGen (Edge edges) b a} :=
    fun a => Set.ext fun b => mem_component
  constructor
  · intro h
    obtain ⟨cycle, hcycle, rfl⟩ := List.mem_map.1 h
    obtain ⟨a, -, rfl, hhead⟩ := mem_cycles.1 hcycle
    exact ⟨a, (mem_component.1 (List.mem_of_mem_head? hhead)).1, hset a⟩
  · rintro ⟨a, ha, rfl⟩
    have hmem := mem_component.2 ⟨ha, ha⟩
    obtain ⟨head, hhead⟩ : ∃ head, ((closure edges).component a).head? = some head :=
      Option.isSome_iff_exists.1 (List.isSome_head?.2 (List.ne_nil_of_mem hmem))
    obtain ⟨hto, hfrom⟩ := mem_component.1 (List.mem_of_mem_head? hhead)
    refine List.mem_map.2 ⟨_, mem_cycles.2 ⟨head, mem_nodes_of_leads hfrom, ?_, hhead⟩, hset a⟩
    exact component_congr hfrom hto

theorem nodup_cycleSets (edges : List (α × α)) : (cycleSets edges).Nodup := by
  have hnodes : (nodes edges).Nodup := by
    rw [← List.map_id (nodes edges)]
    exact nodup_map_firstsFrom id [] _
  rw [List.Nodup, cycleSets, List.pairwise_map, cycles, List.pairwise_filterMap]
  refine hnodes.imp fun {a b} hne first hfirst second hsecond heq => hne ?_
  dsimp only at hfirst hsecond
  split_ifs at hfirst hsecond with ha hb
  cases hfirst
  cases hsecond
  -- The heads of components with the same nodes lead to one another.
  have hmem : a ∈ (closure edges).component b :=
    (Set.ext_iff.1 heq a).1 (List.mem_of_mem_head? ha)
  obtain ⟨hto, hfrom⟩ := mem_component.1 hmem
  rw [component_congr hfrom hto, hb] at ha
  exact (Option.some.inj ha).symm

theorem mem_cycleSets_congr {others : List (α × α)} (h : ∀ edge, edge ∈ edges ↔ edge ∈ others)
    (nodes : Set α) : nodes ∈ cycleSets edges ↔ nodes ∈ cycleSets others := by
  have hedge : Edge edges = Edge others := by
    funext a b
    exact propext (h (a, b))
  rw [mem_cycleSets, mem_cycleSets, hedge]

theorem length_cycles_congr {others : List (α × α)}
    (h : ∀ edge, edge ∈ edges ↔ edge ∈ others) :
    (cycles edges).length = (cycles others).length := by
  have hperm : (cycleSets edges).Perm (cycleSets others) :=
    (List.perm_ext_iff_of_nodup (nodup_cycleSets _) (nodup_cycleSets _)).2 (mem_cycleSets_congr h)
  simpa only [cycleSets, List.length_map] using hperm.length_eq

end InjectionCompiler.Cycle
