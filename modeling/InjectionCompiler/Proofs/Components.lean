import InjectionCompiler.Key
import InjectionCompiler.Proofs.Cycle
import InjectionCompiler.Proofs.Firsts
import Mathlib.Data.List.Lex
import Mathlib.Data.List.Sort

/-!
# Cycles out of components

A graph numbers its nodes as edges are added.  Its cycles are those of its strongly connected
components that hold an edge, brought into the order of the numbers.  In what order the components
are found, and each one's nodes within it, does not show.
-/

namespace InjectionCompiler

open Relation (ReflTransGen TransGen)

/-! ## The cycles of a relation in order -/

namespace Cycle

variable {α : Type} {edges : List (α × α)}

/-- Everything that the edges mention, the source of an edge before its target. -/
def mentions (edges : List (α × α)) : List α :=
  edges.flatMap fun edge => [edge.1, edge.2]

def Connected (edges : List (α × α)) (a b : α) : Prop :=
  ReflTransGen (Edge edges) a b ∧ ReflTransGen (Edge edges) b a

/-- A strongly connected component. -/
def IsComponent (edges : List (α × α)) (component : Set α) : Prop :=
  ∃ node, component = {other | Connected edges node other}

theorem Connected.transGen {a b : α} (h : Connected edges a b)
    (hcycle : TransGen (Edge edges) a a) :
    TransGen (Edge edges) a b ∧ TransGen (Edge edges) b a :=
  ⟨hcycle.trans_left h.1, hcycle.trans_right h.2⟩

theorem Connected.cycle_of_ne {a b : α} (h : Connected edges a b) (hne : a ≠ b) :
    TransGen (Edge edges) a a := by
  rcases Relation.reflTransGen_iff_eq_or_transGen.1 h.1 with heq | hway
  · exact absurd heq.symm hne
  · exact hway.trans_left h.2

theorem setOf_connected {a : α} (hcycle : TransGen (Edge edges) a a) :
    {b | Connected edges a b} = {b | TransGen (Edge edges) a b ∧ TransGen (Edge edges) b a} := by
  ext b
  exact ⟨fun h => h.transGen hcycle, fun h => ⟨h.1.to_reflTransGen, h.2.to_reflTransGen⟩⟩

theorem nontrivial_or_edge_of_cycle {a : α} (hcycle : TransGen (Edge edges) a a) :
    {b | Connected edges a b}.Nontrivial ∨ Edge edges a a := by
  obtain ⟨b, hedge, hback⟩ := TransGen.head'_iff.1 hcycle
  by_cases heq : b = a
  · exact .inr (heq ▸ hedge)
  · exact .inl ⟨a, ⟨.refl, .refl⟩, b, ⟨.single hedge, hback⟩, Ne.symm heq⟩

variable [DecidableEq α]

instance decidableConnected (edges : List (α × α)) (a b : α) : Decidable (Connected edges a b) :=
  decidable_of_iff (b ∈ (space edges).reach a ∧ a ∈ (space edges).reach b) (by
    simp only [SearchSpace.mem_reach_iff, SearchSpace.leads_iff, step_space, Connected])

/-- The listed cycles are the components that hold an edge, in order. -/
structure ListsCycles (edges : List (α × α)) (listed : List (List α)) : Prop where
  exact : ∀ component : Set α, (∃ cycle ∈ listed, {node | node ∈ cycle} = component) ↔
    IsComponent edges component ∧
      (component.Nontrivial ∨ ∃ node ∈ component, Edge edges node node)
  once : (listed.map fun cycle => {node | node ∈ cycle}).Nodup
  nodes_ordered : ∀ cycle ∈ listed,
    cycle.Pairwise fun a b => (mentions edges).idxOf a < (mentions edges).idxOf b
  cycles_ordered : listed.Pairwise fun first second => ∀ a ∈ first.head?, ∀ b ∈ second.head?,
    (mentions edges).idxOf a < (mentions edges).idxOf b
  disjoint : listed.Pairwise List.Disjoint

theorem nodes_eq (edges : List (α × α)) : nodes edges = firsts id (mentions edges) := rfl

theorem nodup_nodes (edges : List (α × α)) : (nodes edges).Nodup :=
  nodup_firsts_id _

theorem component_sublist (node : α) : ((closure edges).component node).Sublist (nodes edges) := by
  have hnodes : (closure edges).map Prod.fst = nodes edges := by
    rw [closure, List.map_map]
    exact List.map_id _
  rw [← hnodes]
  exact List.filter_sublist

theorem pairwise_cycles {R : α → α → Prop} (h : (nodes edges).Pairwise R) :
    (∀ cycle ∈ cycles edges, cycle.Pairwise R) ∧
      (cycles edges).Pairwise fun first second =>
        ∀ a ∈ first.head?, ∀ b ∈ second.head?, R a b := by
  constructor
  · intro cycle hcycle
    obtain ⟨node, -, rfl, -⟩ := mem_cycles.1 hcycle
    exact h.sublist (component_sublist node)
  · rw [cycles, List.pairwise_filterMap]
    refine h.imp fun {a b} hab first hfirst second hsecond => ?_
    dsimp only at hfirst hsecond
    split_ifs at hfirst hsecond with ha hb
    cases hfirst
    cases hsecond
    intro c hc d hd
    rw [ha] at hc
    rw [hb] at hd
    cases hc
    cases hd
    exact hab

theorem disjoint_cycles (edges : List (α × α)) : (cycles edges).Pairwise List.Disjoint := by
  rw [cycles, List.pairwise_filterMap]
  refine (nodup_nodes edges).imp fun {a b} hne first hfirst second hsecond node ha hb => hne ?_
  dsimp only at hfirst hsecond
  split_ifs at hfirst hsecond with hfirstHead hsecondHead
  cases hfirst
  cases hsecond
  -- Components that share a node are one.
  have hsame : (closure edges).component a = (closure edges).component b :=
    (component_congr (mem_component.1 ha).1 (mem_component.1 ha).2).trans
      (component_congr (mem_component.1 hb).1 (mem_component.1 hb).2).symm
  rw [hsame, hsecondHead] at hfirstHead
  exact (Option.some.inj hfirstHead).symm

theorem mem_cycleSets_iff {component : Set α} : component ∈ cycleSets edges ↔
    IsComponent edges component ∧
      (component.Nontrivial ∨ ∃ node ∈ component, Edge edges node node) := by
  rw [mem_cycleSets]
  constructor
  · rintro ⟨a, hcycle, rfl⟩
    rw [← setOf_connected hcycle]
    exact ⟨⟨a, rfl⟩, (nontrivial_or_edge_of_cycle hcycle).imp_right fun hedge =>
      ⟨a, ⟨.refl, .refl⟩, hedge⟩⟩
  · rintro ⟨⟨a, rfl⟩, hlarge⟩
    have hcycle : TransGen (Edge edges) a a := by
      rcases hlarge with hnontrivial | ⟨b, hb, hedge⟩
      · obtain ⟨b, hb, hne⟩ := hnontrivial.exists_ne a
        exact Connected.cycle_of_ne hb (Ne.symm hne)
      · exact (TransGen.single hedge |>.trans_right hb.1).trans_left hb.2
    exact ⟨a, hcycle, setOf_connected hcycle⟩

theorem listsCycles_cycles (edges : List (α × α)) : ListsCycles edges (cycles edges) where
  exact component := by
    rw [← mem_cycleSets_iff, cycleSets, List.mem_map]
  once := nodup_cycleSets edges
  nodes_ordered := (pairwise_cycles (pairwise_firsts_id (mentions edges))).1
  cycles_ordered := (pairwise_cycles (pairwise_firsts_id (mentions edges))).2
  disjoint := disjoint_cycles edges

theorem exists_cycle_of_transGen {a : α} (hcycle : TransGen (Edge edges) a a) :
    ∃ cycle ∈ cycles edges, a ∈ cycle := by
  have hmem := mem_cycleSets.2 ⟨a, hcycle, rfl⟩
  obtain ⟨cycle, hlisted, hset⟩ := List.mem_map.1 hmem
  have ha : a ∈ {node | node ∈ cycle} := hset ▸ ⟨hcycle, hcycle⟩
  exact ⟨cycle, hlisted, ha⟩

theorem mem_cycle_iff {cycle : List α} (h : cycle ∈ cycles edges) {a b : α} (ha : a ∈ cycle) :
    b ∈ cycle ↔ TransGen (Edge edges) a b ∧ TransGen (Edge edges) b a := by
  obtain ⟨head, -, rfl, -⟩ := mem_cycles.1 h
  obtain ⟨hto, hfrom⟩ := mem_component.1 ha
  rw [component_congr hto hfrom, mem_component]

theorem exists_cons_of_mem_cycles {cycle : List α} (h : cycle ∈ cycles edges) :
    ∃ head rest, cycle = head :: rest := by
  obtain ⟨node, -, -, hhead⟩ := mem_cycles.1 h
  cases cycle with
  | nil => cases hhead
  | cons head rest => exact ⟨head, rest, rfl⟩

end Cycle

/-! ## Numbered graphs -/

structure NumberedGraph (α : Type) where
  nodes : List α
  /-- Each edge once, by the numbers of its nodes. -/
  edges : List (Nat × Nat)
  deriving DecidableEq, Repr

namespace NumberedGraph

variable {α : Type} [DecidableEq α]

instance : EmptyCollection (NumberedGraph α) := ⟨⟨[], []⟩⟩

/-- A node that is new gets the next number. -/
def withNode (graph : NumberedGraph α) (node : α) : NumberedGraph α :=
  if node ∈ graph.nodes then graph else { graph with nodes := graph.nodes ++ [node] }

def numberOf (graph : NumberedGraph α) (node : α) : Nat :=
  graph.nodes.idxOf node

def addEdge (graph : NumberedGraph α) (source target : α) : NumberedGraph α :=
  let graph := (graph.withNode source).withNode target
  let edge := (graph.numberOf source, graph.numberOf target)
  if edge ∈ graph.edges then graph else { graph with edges := graph.edges ++ [edge] }

def ofEdges (edges : List (α × α)) : NumberedGraph α :=
  edges.foldl (fun graph edge => graph.addEdge edge.1 edge.2) ∅

/-- A component of a single node is a cycle when the node has an edge to itself. -/
def isCycle (graph : NumberedGraph α) : List Nat → Bool
  | [node] => (node, node) ∈ graph.edges
  | _ => true

/-- The cycles, given the strongly connected components in whatever order. -/
def findCycles (graph : NumberedGraph α) (components : List (List Nat)) : List (List α) :=
  let cycles := (components.filter graph.isCycle).map fun component => component.mergeSort
  (cycles.mergeSort fun a b => decide (a ≤ b)).map fun cycle =>
    cycle.filterMap fun node => graph.nodes[node]?

/-- The list has the strongly connected components of the graph. -/
structure ListsComponents (graph : NumberedGraph α) (components : List (List Nat)) : Prop where
  each_once : components.flatten.Perm (List.range graph.nodes.length)
  ne_nil : ∀ component ∈ components, component ≠ []
  connected : ∀ component ∈ components, ∀ node ∈ component, ∀ other < graph.nodes.length,
    other ∈ component ↔ Cycle.Connected graph.edges node other

/-! ### Nodes and edges -/

variable {edges : List (α × α)}

theorem nodes_withNode (graph : NumberedGraph α) (node : α) : (graph.withNode node).nodes =
    if node ∈ graph.nodes then graph.nodes else graph.nodes ++ [node] := by
  unfold withNode
  split <;> rfl

theorem nodes_addEdge (graph : NumberedGraph α) (source target : α) :
    (graph.addEdge source target).nodes = ((graph.withNode source).withNode target).nodes := by
  unfold addEdge
  dsimp only
  split <;> rfl

theorem ofEdges_append_singleton (edges : List (α × α)) (edge : α × α) :
    ofEdges (edges ++ [edge]) = (ofEdges edges).addEdge edge.1 edge.2 := by
  simp [ofEdges]

theorem nodes_ofEdges (edges : List (α × α)) : (ofEdges edges).nodes = Cycle.nodes edges := by
  induction edges using List.reverseRecOn with
  | nil => rfl
  | append_singleton edges edge ih =>
      have hmentions : Cycle.mentions (edges ++ [edge]) =
          Cycle.mentions edges ++ [edge.1] ++ [edge.2] := by
        simp [Cycle.mentions]
      have hfirst : ((ofEdges edges).withNode edge.1).nodes =
          firsts id (Cycle.mentions edges ++ [edge.1]) := by
        rw [nodes_withNode, ih, Cycle.nodes_eq, firsts_id_append_singleton]
        simp only [mem_firsts_id]
      rw [ofEdges_append_singleton, nodes_addEdge, nodes_withNode, hfirst, Cycle.nodes_eq,
        hmentions, firsts_id_append_singleton (_ ++ _)]
      simp only [mem_firsts_id]

theorem nodup_nodes (edges : List (α × α)) : (ofEdges edges).nodes.Nodup := by
  rw [nodes_ofEdges]
  exact Cycle.nodup_nodes edges

theorem pairwise_numberOf (edges : List (α × α)) : (Cycle.nodes edges).Pairwise
    fun a b => (ofEdges edges).numberOf a < (ofEdges edges).numberOf b := by
  rw [← nodes_ofEdges, List.pairwise_iff_getElem]
  intro i j hi hj hlt
  rwa [numberOf, numberOf, (nodup_nodes edges).idxOf_getElem i hi,
    (nodup_nodes edges).idxOf_getElem j hj]

theorem mem_nodes_of_mem {edge : α × α} (h : edge ∈ edges) :
    edge.1 ∈ (ofEdges edges).nodes ∧ edge.2 ∈ (ofEdges edges).nodes := by
  rw [nodes_ofEdges, Cycle.nodes_eq, mem_firsts_id, mem_firsts_id]
  exact ⟨List.mem_flatMap.2 ⟨edge, h, by simp⟩, List.mem_flatMap.2 ⟨edge, h, by simp⟩⟩

theorem numberOf_append_singleton {node : α} (edge : α × α)
    (h : node ∈ (ofEdges edges).nodes) :
    (ofEdges (edges ++ [edge])).numberOf node = (ofEdges edges).numberOf node := by
  have hgrows : (ofEdges edges).nodes <+: (ofEdges (edges ++ [edge])).nodes := by
    rw [ofEdges_append_singleton, nodes_addEdge, nodes_withNode, nodes_withNode]
    split <;> split <;> simp
  obtain ⟨later, hlater⟩ := hgrows
  rw [numberOf, ← hlater, List.idxOf_append, if_pos h, numberOf]

theorem mem_edges_addEdge {graph : NumberedGraph α} {source target : α} {place : Nat × Nat} :
    place ∈ (graph.addEdge source target).edges ↔ place ∈ graph.edges ∨
      ((graph.addEdge source target).numberOf source,
        (graph.addEdge source target).numberOf target) = place := by
  have hold : ((graph.withNode source).withNode target).edges = graph.edges := by
    unfold withNode
    split <;> split <;> rfl
  simp only [numberOf, nodes_addEdge]
  unfold addEdge
  dsimp only
  rw [hold]
  split
  · next hmem =>
      rw [hold]
      exact (or_iff_left_of_imp fun heq => heq ▸ hmem).symm
  · rw [List.mem_append, List.mem_singleton, eq_comm (a := place)]
    rfl

theorem mem_edges_ofEdges {place : Nat × Nat} : place ∈ (ofEdges edges).edges ↔
    ∃ edge ∈ edges, ((ofEdges edges).numberOf edge.1, (ofEdges edges).numberOf edge.2) =
      place := by
  induction edges using List.reverseRecOn with
  | nil => exact iff_of_false List.not_mem_nil (by simp)
  | append_singleton edges edge ih =>
      rw [ofEdges_append_singleton, mem_edges_addEdge, ih, ← ofEdges_append_singleton]
      simp only [List.mem_append, List.mem_singleton, or_and_right, exists_or, exists_eq_left]
      refine or_congr_left (exists_congr fun other => and_congr_right fun hother => ?_)
      obtain ⟨hsource, htarget⟩ := mem_nodes_of_mem hother
      rw [numberOf_append_singleton edge hsource, numberOf_append_singleton edge htarget]

theorem mk_numberOf_mem_edges {a b : α} :
    ((ofEdges edges).numberOf a, (ofEdges edges).numberOf b) ∈ (ofEdges edges).edges ↔
      (a, b) ∈ edges := by
  rw [mem_edges_ofEdges]
  constructor
  · rintro ⟨⟨source, target⟩, hedge, hplaces⟩
    obtain ⟨hsource, htarget⟩ := Prod.mk.inj hplaces
    obtain ⟨hsourceMem, htargetMem⟩ := mem_nodes_of_mem hedge
    rwa [← (List.idxOf_inj hsourceMem).1 hsource, ← (List.idxOf_inj htargetMem).1 htarget]
  · exact fun hedge => ⟨(a, b), hedge, rfl⟩

theorem reflTransGen_numberOf_iff {a : α} (ha : a ∈ (ofEdges edges).nodes) (b : α) :
    ReflTransGen (Cycle.Edge (ofEdges edges).edges) ((ofEdges edges).numberOf a)
        ((ofEdges edges).numberOf b) ↔ ReflTransGen (Cycle.Edge edges) a b := by
  have hforth : ∀ place, ReflTransGen (Cycle.Edge (ofEdges edges).edges)
      ((ofEdges edges).numberOf a) place → ∃ node ∈ (ofEdges edges).nodes,
        (ofEdges edges).numberOf node = place ∧ ReflTransGen (Cycle.Edge edges) a node := by
    intro place hway
    induction hway with
    | refl => exact ⟨a, ha, rfl, .refl⟩
    | tail _ hstep ih =>
        obtain ⟨node, hnode, rfl, hway⟩ := ih
        obtain ⟨edge, hedge, hplaces⟩ := mem_edges_ofEdges.1 hstep
        obtain ⟨hsource, rfl⟩ := Prod.mk.inj hplaces
        obtain ⟨hsourceMem, htargetMem⟩ := mem_nodes_of_mem hedge
        rw [← (List.idxOf_inj hsourceMem).1 hsource] at hway
        exact ⟨edge.2, htargetMem, rfl, hway.tail hedge⟩
  constructor
  · intro hway
    obtain ⟨node, hnode, hsame, hway⟩ := hforth _ hway
    rwa [(List.idxOf_inj hnode).1 hsame] at hway
  · intro hway
    have hedges : ∀ source target, Cycle.Edge edges source target →
        Cycle.Edge (ofEdges edges).edges ((ofEdges edges).numberOf source)
          ((ofEdges edges).numberOf target) :=
      fun source target hedge => mk_numberOf_mem_edges.2 hedge
    exact ReflTransGen.lift _ hedges _ _ hway

theorem connected_numberOf_iff {a b : α} (ha : a ∈ (ofEdges edges).nodes)
    (hb : b ∈ (ofEdges edges).nodes) :
    Cycle.Connected (ofEdges edges).edges ((ofEdges edges).numberOf a)
        ((ofEdges edges).numberOf b) ↔ Cycle.Connected edges a b :=
  and_congr (reflTransGen_numberOf_iff ha b) (reflTransGen_numberOf_iff hb a)

theorem numberOf_lt {node : α} (h : node ∈ (ofEdges edges).nodes) :
    (ofEdges edges).numberOf node < (ofEdges edges).nodes.length :=
  List.idxOf_lt_length_iff.2 h

theorem exists_numberOf_eq {place : Nat} (h : place < (ofEdges edges).nodes.length) :
    ∃ node ∈ (ofEdges edges).nodes, (ofEdges edges).numberOf node = place :=
  ⟨_, List.getElem_mem h, (nodup_nodes edges).idxOf_getElem place h⟩

theorem places_ordered (edges : List (α × α)) :
    ((Cycle.cycles edges).map fun cycle => cycle.map (ofEdges edges).numberOf).Pairwise
      (· < ·) := by
  rw [List.pairwise_map]
  refine (Cycle.pairwise_cycles (pairwise_numberOf edges)).2.imp_of_mem ?_
  intro first second hfirst hsecond hlt
  obtain ⟨a, _, rfl⟩ := Cycle.exists_cons_of_mem_cycles hfirst
  obtain ⟨b, _, rfl⟩ := Cycle.exists_cons_of_mem_cycles hsecond
  exact .rel (hlt a rfl b rfl)

/-! ### Components as cycles -/

namespace ListsComponents

variable {components : List (List Nat)} (h : (ofEdges edges).ListsComponents components)

include h

theorem lt_of_mem {component : List Nat} (hcomponent : component ∈ components) {place : Nat}
    (hplace : place ∈ component) : place < (ofEdges edges).nodes.length :=
  List.mem_range.1 (h.each_once.mem_iff.1 (List.mem_flatten.2 ⟨component, hcomponent, hplace⟩))

theorem exists_mem {place : Nat} (hplace : place < (ofEdges edges).nodes.length) :
    ∃ component ∈ components, place ∈ component :=
  List.mem_flatten.1 (h.each_once.mem_iff.2 (List.mem_range.2 hplace))

theorem nodup_flatten : components.flatten.Nodup :=
  h.each_once.nodup_iff.2 List.nodup_range

theorem nodup_of_mem {component : List Nat} (hcomponent : component ∈ components) :
    component.Nodup :=
  (List.nodup_flatten.1 h.nodup_flatten).1 component hcomponent

section

variable {component : List Nat} (hcomponent : component ∈ components) {a : α}
  (ha : a ∈ (ofEdges edges).nodes) (hplace : (ofEdges edges).numberOf a ∈ component)

include hcomponent ha hplace

theorem numberOf_mem_iff {b : α} (hb : b ∈ (ofEdges edges).nodes) :
    (ofEdges edges).numberOf b ∈ component ↔ Cycle.Connected edges a b := by
  rw [h.connected component hcomponent _ hplace _ (numberOf_lt hb), connected_numberOf_iff ha hb]

theorem isCycle_iff : (ofEdges edges).isCycle component = true ↔
    TransGen (Cycle.Edge edges) a a := by
  obtain _ | ⟨first, _ | ⟨second, rest⟩⟩ := component
  · exact absurd hplace List.not_mem_nil
  · -- A component of one node, whose cycle has no other node to go through.
    obtain rfl := List.mem_singleton.1 hplace
    simp only [isCycle, decide_eq_true_eq, mk_numberOf_mem_edges]
    constructor
    · exact fun hloop => .single hloop
    · intro hcycle
      rcases Cycle.nontrivial_or_edge_of_cycle hcycle with hnontrivial | hloop
      · obtain ⟨b, hb, hne⟩ := hnontrivial.exists_ne a
        obtain ⟨c, hedge, -⟩ := TransGen.head'_iff.1 (hb.transGen hcycle).2
        have hbMem := (mem_nodes_of_mem hedge).1
        have hsame := (h.numberOf_mem_iff hcomponent ha (List.mem_singleton_self _) hbMem).2 hb
        exact absurd ((List.idxOf_inj hbMem).1 (List.mem_singleton.1 hsame)) hne
      · exact hloop
  · -- A larger component has another node, with which the first one is connected.
    simp only [isCycle, true_iff]
    obtain ⟨other, hother, hne⟩ : ∃ other ∈ first :: second :: rest,
        other ≠ (ofEdges edges).numberOf a := by
      by_cases heq : first = (ofEdges edges).numberOf a
      · have hnodup := (List.nodup_cons.1 (h.nodup_of_mem hcomponent)).1
        refine ⟨second, by simp, fun hsecond => hnodup ?_⟩
        rw [heq, ← hsecond]
        exact List.mem_cons_self ..
      · exact ⟨first, by simp, heq⟩
    obtain ⟨b, hb, rfl⟩ := exists_numberOf_eq (h.lt_of_mem hcomponent hother)
    have hconnected := (h.numberOf_mem_iff hcomponent ha hplace hb).1 hother
    exact hconnected.cycle_of_ne fun heq => hne (heq ▸ rfl)

theorem mergeSort_eq {cycle : List α} (hcycle : cycle ∈ Cycle.cycles edges) (hmem : a ∈ cycle) :
    component.mergeSort = cycle.map (ofEdges edges).numberOf := by
  have hordered : (cycle.map (ofEdges edges).numberOf).Pairwise (· < ·) := by
    rw [List.pairwise_map]
    exact (Cycle.pairwise_cycles (pairwise_numberOf edges)).1 cycle hcycle
  have hself := ((Cycle.mem_cycle_iff hcycle hmem).1 hmem).1
  have hnode : ∀ b ∈ cycle, b ∈ (ofEdges edges).nodes := fun b hb => by
    rw [nodes_ofEdges]
    exact Cycle.mem_nodes_of_leads ((Cycle.mem_cycle_iff hcycle hmem).1 hb).2
  have hperm : component.Perm (cycle.map (ofEdges edges).numberOf) := by
    refine (List.perm_ext_iff_of_nodup (h.nodup_of_mem hcomponent) (hordered.imp ne_of_lt)).2
      fun place => ?_
    constructor
    · intro hin
      obtain ⟨b, hb, rfl⟩ := exists_numberOf_eq (h.lt_of_mem hcomponent hin)
      have hconnected := (h.numberOf_mem_iff hcomponent ha hplace hb).1 hin
      exact List.mem_map_of_mem ((Cycle.mem_cycle_iff hcycle hmem).2 (hconnected.transGen hself))
    · intro hin
      obtain ⟨b, hb, rfl⟩ := List.mem_map.1 hin
      obtain ⟨hto, hfrom⟩ := (Cycle.mem_cycle_iff hcycle hmem).1 hb
      exact (h.numberOf_mem_iff hcomponent ha hplace (hnode b hb)).2
        ⟨hto.to_reflTransGen, hfrom.to_reflTransGen⟩
  have hsorted : component.mergeSort.Pairwise (· ≤ ·) := List.pairwise_mergeSort' (· ≤ ·) component
  exact List.Perm.eq_of_pairwise' hsorted (hordered.imp le_of_lt)
    ((List.mergeSort_perm ..).trans hperm)

end

theorem perm_places : ((components.filter (ofEdges edges).isCycle).map
    fun component => component.mergeSort).Perm
      ((Cycle.cycles edges).map fun cycle => cycle.map (ofEdges edges).numberOf) := by
  refine (List.perm_ext_iff_of_nodup ?_ (places_ordered edges).nodup).2 fun places => ?_
  · -- No two components share a place, so none is listed twice.
    have hdisjoint := (List.nodup_flatten.1 h.nodup_flatten).2
    rw [List.Nodup, List.pairwise_map]
    refine (hdisjoint.sublist List.filter_sublist).imp_of_mem ?_
    intro first second hfirst hsecond hapart heq
    obtain ⟨place, hplace⟩ :=
      List.exists_mem_of_ne_nil _ (h.ne_nil first (List.mem_of_mem_filter hfirst))
    have hother : place ∈ second := by rwa [← List.mem_mergeSort, ← heq, List.mem_mergeSort]
    exact hapart hplace hother
  · simp only [List.mem_map, List.mem_filter]
    constructor
    · rintro ⟨component, ⟨hcomponent, hcycle⟩, rfl⟩
      obtain ⟨place, hplace⟩ := List.exists_mem_of_ne_nil _ (h.ne_nil component hcomponent)
      obtain ⟨a, ha, rfl⟩ := exists_numberOf_eq (h.lt_of_mem hcomponent hplace)
      have hself := (h.isCycle_iff hcomponent ha hplace).1 hcycle
      obtain ⟨cycle, hlisted, hmem⟩ := Cycle.exists_cycle_of_transGen hself
      exact ⟨cycle, hlisted, (h.mergeSort_eq hcomponent ha hplace hlisted hmem).symm⟩
    · rintro ⟨cycle, hlisted, rfl⟩
      obtain ⟨a, rest, rfl⟩ := Cycle.exists_cons_of_mem_cycles hlisted
      have hmem := List.mem_cons_self (a := a) (l := rest)
      have hself := ((Cycle.mem_cycle_iff hlisted hmem).1 hmem).1
      have ha : a ∈ (ofEdges edges).nodes := by
        rw [nodes_ofEdges]
        exact Cycle.mem_nodes_of_leads hself
      obtain ⟨component, hcomponent, hplace⟩ := h.exists_mem (numberOf_lt ha)
      exact ⟨component, ⟨hcomponent, (h.isCycle_iff hcomponent ha hplace).2 hself⟩,
        h.mergeSort_eq hcomponent ha hplace hlisted hmem⟩

/-- In whatever order the components were found, the cycles are listed in that of the nodes. -/
theorem findCycles_eq : (ofEdges edges).findCycles components = Cycle.cycles edges := by
  have hsorted := List.Perm.eq_of_pairwise' (List.pairwise_mergeSort' (· ≤ ·) _)
    ((places_ordered edges).imp le_of_lt) ((List.mergeSort_perm ..).trans h.perm_places)
  rw [findCycles, hsorted, List.map_map]
  refine (List.map_congr_left fun cycle hcycle => ?_).trans (List.map_id _)
  have hread : ∀ a ∈ cycle, (ofEdges edges).nodes[(ofEdges edges).numberOf a]? = some a := by
    intro a ha
    have hnode : a ∈ (ofEdges edges).nodes := by
      rw [nodes_ofEdges]
      exact Cycle.mem_nodes_of_leads ((Cycle.mem_cycle_iff hcycle ha).1 ha).1
    exact List.getElem?_eq_some_iff.2 ⟨numberOf_lt hnode, List.getElem_idxOf _⟩
  rw [Function.comp_apply, List.filterMap_map]
  refine (List.filterMap_congr fun a ha => ?_).trans List.filterMap_some
  exact hread a ha

end ListsComponents

/-! ### Repeated edges -/

theorem withNode_of_mem {graph : NumberedGraph α} {node : α} (h : node ∈ graph.nodes) :
    graph.withNode node = graph :=
  if_pos h

theorem addEdge_of_mem {edge : α × α} (h : edge ∈ edges) :
    (ofEdges edges).addEdge edge.1 edge.2 = ofEdges edges := by
  obtain ⟨hsource, htarget⟩ := mem_nodes_of_mem h
  rw [addEdge, withNode_of_mem hsource, withNode_of_mem htarget]
  exact if_pos (mk_numberOf_mem_edges.2 h)

theorem ofEdges_repeat {edge : α × α} (h : edge ∈ edges) (later : List (α × α)) :
    ofEdges (edges ++ edge :: later) = ofEdges (edges ++ later) := by
  have hsame : (ofEdges edges).addEdge edge.1 edge.2 = ofEdges edges := addEdge_of_mem h
  unfold ofEdges at hsame ⊢
  rw [List.foldl_append, List.foldl_append, List.foldl_cons, hsame]

/-! ### The listing -/

/-- The cycles are exactly the components with an edge inside, in the order of first mention.  None
are listed where there are none, and adding an edge once more does not change the list. -/
theorem cycles_exact_and_stable {components : List (List Nat)}
    (h : (ofEdges edges).ListsComponents components) :
    (ofEdges edges).findCycles components = Cycle.cycles edges ∧
      Cycle.ListsCycles edges ((ofEdges edges).findCycles components) ∧
      ((ofEdges edges).findCycles components = [] ↔
        ∀ node, ¬ TransGen (Cycle.Edge edges) node node) ∧
      ∀ earlier edge later others, edges = earlier ++ later → edge ∈ earlier →
        (ofEdges (earlier ++ edge :: later)).ListsComponents others →
          (ofEdges (earlier ++ edge :: later)).findCycles others =
            (ofEdges edges).findCycles components := by
  have hlisted := h.findCycles_eq
  refine ⟨hlisted, ?_, ?_, ?_⟩
  · rw [hlisted]
    exact Cycle.listsCycles_cycles edges
  · rw [hlisted]
    exact Cycle.cycles_eq_nil_iff
  · rintro earlier edge later others rfl hedge hothers
    rw [ofEdges_repeat hedge] at hothers ⊢
    rw [hlisted, hothers.findCycles_eq]

end NumberedGraph

/-! ## A clockwork -/

namespace Clockwork

def part (name : String) : Key :=
  ⟨.ofClass ⟨name⟩, none⟩

/-- A cycle of three parts, and one of a single part that hangs on it. -/
def edges : List (Key × Key) :=
  [(part "Wheel", part "Spring"), (part "Spring", part "Anchor"), (part "Anchor", part "Wheel"),
    (part "Anchor", part "Hand"), (part "Hand", part "Hand"), (part "Hand", part "Dial")]

def cycles : List (List Key) :=
  [[part "Wheel", part "Spring", part "Anchor"], [part "Hand"]]

end Clockwork

set_option maxRecDepth 100000 in
theorem NumberedGraph.cycles_exact_and_stable_clockwork :
    (ofEdges Clockwork.edges).ListsComponents [[4], [3], [1, 0, 2]] ∧
      (ofEdges Clockwork.edges).findCycles [[4], [3], [1, 0, 2]] = Clockwork.cycles ∧
      Cycle.ListsCycles Clockwork.edges Clockwork.cycles ∧
      (ofEdges (Clockwork.edges ++ [(Clockwork.part "Anchor", Clockwork.part "Hand")])).findCycles
        [[2, 1, 0], [3], [4]] = Clockwork.cycles := by
  have hlists : (ofEdges Clockwork.edges).ListsComponents [[4], [3], [1, 0, 2]] :=
    ⟨by decide +kernel, by decide +kernel, by decide +kernel⟩
  have hothers : (ofEdges (Clockwork.edges ++
      [(Clockwork.part "Anchor", Clockwork.part "Hand")])).ListsComponents [[2, 1, 0], [3], [4]] :=
    ⟨by decide +kernel, by decide +kernel, by decide +kernel⟩
  have hcycles : Cycle.cycles Clockwork.edges = Clockwork.cycles := by decide +kernel
  obtain ⟨hfound, hlisted, -, hrepeat⟩ := cycles_exact_and_stable hlists
  rw [hfound, hcycles] at hlisted hrepeat
  exact ⟨hlists, hfound.trans hcycles, hlisted,
    hrepeat Clockwork.edges _ [] _ (List.append_nil _).symm (by decide +kernel) hothers⟩

end InjectionCompiler
