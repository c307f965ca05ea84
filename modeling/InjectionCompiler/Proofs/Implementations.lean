import InjectionCompiler.Proofs.Attachment

/-!
# Bindings and what implements them

A module has the bindings of what it provides by itself: of its provision points, and of the
factories and contracts that it hosts.  So a container that reaches a binding also provides what
implements it, and a binding is without effect just where no module provides that.
-/

namespace InjectionCompiler

namespace ObjectGraph

/-- The module provides by itself what implements the binding, up to boxing. -/
def Backs (graph : ObjectGraph) (module : Module) (bound : Binding) : Prop :=
  ∃ key ∈ graph.ownKeys module, key.boxed = bound.implementation.boxed

instance (graph : ObjectGraph) (module : Module) (bound : Binding) :
    Decidable (graph.Backs module bound) :=
  inferInstanceAs (Decidable (∃ key ∈ graph.ownKeys module, _))

/-- The bindings of a graph are where they are implemented. -/
structure BindingsBacked (path : ClassPath) (graph : ObjectGraph) : Prop where
  registered_iff : ∀ bound, bound ∈ graph.bindings ↔
    ∃ decl ∈ path.decls, bound ∈ (path.readClassBindings decl).value
  nodup : graph.bindings.Nodup
  mem_module_iff : ∀ module ∈ graph.modules.items, ∀ bound,
    bound ∈ module.bindings ↔ bound ∈ graph.bindings ∧ graph.Backs module bound
  nodup_module : ∀ module ∈ graph.modules.items, module.bindings.Nodup
  /-- The report on missing keys never names what implements a binding of the container. -/
  not_missing : ∀ container ∈ graph.containers, ∀ id module,
    graph.Effective container.module id module → ∀ bound ∈ module.bindings, ∀ requirers,
      (bound.implementation.boxed, requirers) ∉
        (Wiring.ofRoot graph container.module).unresolved
  unattached_eq : graph.unattachedFaults =
    (graph.bindings.filter fun bound =>
        ∀ module ∈ graph.modules.items, ¬ graph.Backs module bound).map fun bound =>
      "Invalid configuration for dependency: " ++ bound.ancestor.display ++ ". " ++
        bound.implementation.display ++ " isn't provided by any module"

theorem exists_providedAt_of_mem_ownKeys {graph : ObjectGraph} {root id : Id .module}
    {module : Module} (heffective : graph.Effective root id module) {key : Key}
    (h : key ∈ graph.ownKeys module) : ∃ place, Wiring.ProvidedAt graph root place key.boxed := by
  simp only [ownKeys, List.mem_append, List.mem_map] at h
  rcases h with (⟨point, hmem, rfl⟩ | ⟨factory, hmem, rfl⟩) | ⟨contract, hmem, rfl⟩
  · obtain ⟨index, hindex⟩ := List.mem_iff_getElem?.1 hmem
    exact ⟨_, _, .provisionPoint heffective hindex⟩
  · obtain ⟨index, hindex⟩ := List.mem_iff_getElem?.1 hmem
    exact ⟨_, _, .hostedFactory heffective hindex⟩
  · obtain ⟨index, hindex⟩ := List.mem_iff_getElem?.1 hmem
    exact ⟨_, _, .hostedContract heffective hindex⟩

theorem backs_iff {graph : ObjectGraph} {module : Module} {bound : Binding} :
    graph.Backs module bound ↔
      bound.implementation.boxed ∈ (graph.ownKeys module).map Key.boxed :=
  List.mem_map.symm

theorem Backs.not_missing {graph : ObjectGraph} {module : Module} {bound : Binding}
    (h : graph.Backs module bound) {root id : Id .module}
    (heffective : graph.Effective root id module) (requirers : List Requirer) :
    (bound.implementation.boxed, requirers) ∉ (Wiring.ofRoot graph root).unresolved := by
  intro hmissing
  obtain ⟨key, hkey, hboxed⟩ := h
  have hprovided := exists_providedAt_of_mem_ownKeys heffective hkey
  rw [hboxed] at hprovided
  exact (Wiring.mem_map_fst_unresolved.1 (List.mem_map_of_mem hmissing)).2 hprovided

end ObjectGraph

namespace ClassPath

variable {path : ClassPath} {project : String} {graph : ObjectGraph}

theorem nodup_bindings_moduleOf (sources : ModuleSources) (book : ContractBook) (decl : ClassDecl) :
    (path.moduleOf sources book decl).bindings.Nodup := by
  unfold moduleOf
  split
  · dsimp only
    exact nodup_firsts_id _
  · exact List.nodup_nil

section

variable (hgraph : (path.readGraph project).result = .ok graph)

include hgraph

theorem mem_bindings_iff_backs {module : Module} (hmodule : module ∈ graph.modules.items)
    {bound : Binding} :
    bound ∈ module.bindings ↔ bound ∈ graph.bindings ∧ graph.Backs module bound := by
  rw [mem_bindings_iff hgraph hmodule, mem_bindings_graph_iff hgraph, ObjectGraph.backs_iff]

theorem nodup_bindings {module : Module} (hmodule : module ∈ graph.modules.items) :
    module.bindings.Nodup := by
  obtain ⟨marked, book, configured, hportrays, -⟩ := portrays_of_readGraph hgraph
  obtain ⟨decl, -, -, hread⟩ :=
    hportrays.exists_decl (Arena.named?_of_mem hportrays.named hmodule)
  have hbindings := congrArg Module.bindings hread
  dsimp only at hbindings
  rw [hbindings]
  exact nodup_bindings_moduleOf _ _ decl

theorem unattachedFaults_eq : graph.unattachedFaults =
    (graph.bindings.filter fun bound =>
        ∀ module ∈ graph.modules.items, ¬ graph.Backs module bound).map fun bound =>
      "Invalid configuration for dependency: " ++ bound.ancestor.display ++ ". " ++
        bound.implementation.display ++ " isn't provided by any module" := by
  rw [ObjectGraph.unattachedFaults]
  refine congrArg _ (List.filter_congr fun bound hbound => ?_)
  have hreported := mem_unattached_iff hgraph ((mem_bindings_graph_iff hgraph).1 hbound)
  rw [List.mem_filter, and_iff_right hbound] at hreported
  rw [Bool.eq_iff_iff, hreported, decide_eq_true_eq]
  simp only [ObjectGraph.backs_iff]

end

/-- In a graph that was read, each module has exactly the registered bindings that it implements, no
container misses what implements one of its bindings, and validation reports the bindings that no
module implements. -/
theorem bindingsBacked_readGraph (hgraph : (path.readGraph project).result = .ok graph) :
    graph.BindingsBacked path := by
  obtain ⟨marked, book, configured, hportrays, -⟩ := portrays_of_readGraph hgraph
  constructor
  case registered_iff =>
    intro bound
    rw [mem_bindings_graph_iff hgraph, declaredBindings, List.mem_flatMap]
  case nodup =>
    rw [hportrays.bindings]
    exact path.lists_readBindings.nodup_all
  case mem_module_iff => exact fun module hmodule bound => mem_bindings_iff_backs hgraph hmodule
  case nodup_module => exact fun module hmodule => nodup_bindings hgraph hmodule
  case not_missing =>
    intro container _ id module heffective bound hbound
    have hmodule := Arena.mem_items_of_get? heffective.2
    exact ((mem_bindings_iff_backs hgraph hmodule).1 hbound).2.not_missing heffective
  case unattached_eq => exact unattachedFaults_eq hgraph

set_option maxRecDepth 100000 in
theorem bindingsBacked_readGraph_badge :
    ∃ graph, ((Badge.path []).readGraph "main").result = .ok graph ∧
      Badge.shown graph = [([(⟨"app/Service"⟩, .constructor [])],
        [⟨.ofClass ⟨"app/Service"⟩, .ofClass ⟨"app/Api"⟩⟩])] ∧
      graph.BindingsBacked (Badge.path []) := by
  have hshown : ((Badge.path []).readGraph "main").result.map Badge.shown =
      .ok [([(⟨"app/Service"⟩, .constructor [])],
        [⟨.ofClass ⟨"app/Service"⟩, .ofClass ⟨"app/Api"⟩⟩])] := by
    decide +kernel
  obtain ⟨graph, hgraph, hmodules⟩ := exists_ok_of_map_eq_ok hshown
  exact ⟨graph, hgraph, hmodules, bindingsBacked_readGraph hgraph⟩

end ClassPath

end InjectionCompiler
