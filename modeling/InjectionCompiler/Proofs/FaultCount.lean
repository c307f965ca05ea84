import InjectionCompiler.Proofs.Candidates
import InjectionCompiler.Proofs.Census

/-!
# As many faults

Validation finds as many faults in graphs that are alike.  Most messages are the same on both sides,
in another order; those that list several places or candidates list them in another order, too, and
so only their number is the same.
-/

namespace InjectionCompiler

open Wiring (Census census)

/-! ## Structural faults -/

namespace ClassPath.Rearranges

variable {path other : ClassPath} (h : path.Rearranges other)

include h

theorem abstractFaults (name : ClassName) :
    other.abstractFaults name = path.abstractFaults name := by
  simp only [ClassPath.abstractFaults, h.find?_eq]

theorem factoryFaults (factory : Factory) :
    other.factoryFaults factory = path.factoryFaults factory := by
  have hmethod : other.factoryMethodFaults factory = path.factoryMethodFaults factory := by
    funext method
    simp only [factoryMethodFaults, h.ancestors]
  simp only [ClassPath.factoryFaults, factoryClassFaults, hmethod, h.find?_eq, h.factoryMethods]

theorem bindingFaults (binding : Binding) :
    other.bindingFaults binding = path.bindingFaults binding := by
  have hgeneric : other.isGeneric = path.isGeneric := by
    funext name
    rw [isGeneric, isGeneric, h.find?_eq]
  have hinjected : other.hasInjectedConstructor = path.hasInjectedConstructor := by
    funext name
    rw [hasInjectedConstructor, hasInjectedConstructor, h.find?_eq]
  unfold ClassPath.bindingFaults classBindingFaults
  rw [hgeneric, hinjected, funext h.ancestors]

theorem structuralFaults_perm {graph twin : ObjectGraph} (halike : graph.Alike twin) :
    (path.structuralFaults graph).Perm (other.structuralFaults twin) := by
  have hnames : (graph.modules.items.map Module.name).Perm
      (twin.modules.items.map Module.name) := by
    have hshown := halike.showings.map Showing.name
    rwa [List.map_map, List.map_map] at hshown
  have hmodules : (graph.modules.items.map path.moduleFaults).Perm
      (twin.modules.items.map other.moduleFaults) := by
    refine map_perm_of_keys hnames fun module _ like _ hname => ?_
    simp only [moduleFaults, h.find?_eq, hname]
  have hconfigurations : (graph.configurations.map path.configurationFaults).Perm
      (twin.configurations.map other.configurationFaults) := by
    refine map_perm_of_keys halike.configurations fun configuration _ like _ hname => ?_
    simp only [configurationFaults, h.find?_eq, hname]
  have hproviding : (fun target : InjectionTarget =>
      staticFaults target ++ other.abstractFaults target.name) =
        fun target => staticFaults target ++ path.abstractFaults target.name :=
    funext fun target => congrArg _ (h.abstractFaults target.name)
  have hmodules := hmodules.flatten
  have hconfigurations := hconfigurations.flatten
  simp only [← List.flatMap_def] at hmodules hconfigurations
  unfold structuralFaults
  rw [hproviding, funext h.factoryFaults, funext h.bindingFaults]
  refine .append (.append (.append (.append (.append hmodules ?_) ?_) ?_) ?_) hconfigurations
  · exact halike.injectable.flatMap_right _
  · exact halike.providable.flatMap_right _
  · exact halike.factories.flatMap_right _
  · exact halike.bindings.flatMap_right _

end ClassPath.Rearranges

namespace ObjectGraph

/-! ## Injection targets -/

theorem bestCandidates_eq_nil_congr {components others : List (Container × Wiring)}
    (h : (components.map fun entry => entry.2.census).Perm
      (others.map fun entry => entry.2.census)) (target : InjectionTarget) :
    bestCandidates components target = [] ↔ bestCandidates others target = [] := by
  have hserved : ∀ components : List (Container × Wiring),
      (∃ entry ∈ components, ∀ dependency ∈ target.dependencies,
        entry.2.resolves dependency.key = true) ↔
        ∃ counted ∈ components.map fun entry => entry.2.census,
          ∀ dependency ∈ target.dependencies, dependency.key.boxed ∈ counted.1 := by
    intro components
    simp only [List.mem_map, exists_exists_and_eq_and, Wiring.resolves_iff_mem_census]
  have hnone : components = [] ↔ others = [] := by
    rw [← List.length_eq_zero_iff, ← List.length_eq_zero_iff]
    have hlength := h.length_eq
    rw [List.length_map, List.length_map] at hlength
    rw [hlength]
  rw [bestCandidates_eq_nil_iff, bestCandidates_eq_nil_iff, hserved, hserved, hnone]
  simp only [h.mem_iff]

theorem length_targetFaults_eq_countP (graph : ObjectGraph) (wirings : List (Container × Wiring)) :
    (graph.targetFaults wirings).length =
      (graph.injectable.filter fun target => (graph.providable? target.name).isNone).countP
        fun target => !(bestCandidates (wirings.filter fun entry =>
          graph.components.any fun component => component.name = entry.1.name) target).isEmpty := by
  rw [targetFaults, List.length_filterMap_eq_countP]
  refine List.countP_congr fun target _ => ?_
  cases bestCandidates _ target <;> simp

/-! ## Graphs alike -/

theorem isAttached_iff {graph : ObjectGraph} {binding : Binding} :
    graph.isAttached binding = true ↔
      ∃ showing ∈ graph.modules.items.map graph.showing, binding ∈ showing.bindings := by
  simp only [isAttached, List.any_eq_true, List.contains_iff_mem, List.mem_map,
    exists_exists_and_eq_and]
  rfl

variable {graph twin : ObjectGraph} (halike : graph.Alike twin)

include halike

theorem Alike.unattachedFaults_perm : graph.unattachedFaults.Perm twin.unattachedFaults := by
  have hattached : twin.isAttached = graph.isAttached := by
    funext binding
    rw [Bool.eq_iff_iff, isAttached_iff, isAttached_iff]
    simp only [halike.showings.mem_iff]
  unfold unattachedFaults
  rw [hattached]
  exact (halike.bindings.filter _).map _

variable (hgraph : graph.contracts.Named Contract.name) (htwin : twin.contracts.Named Contract.name)

include hgraph htwin

theorem Alike.wirings_perm :
    (graph.wirings.map fun entry => (entry.1.name, entry.2.census)).Perm
      (twin.wirings.map fun entry => (entry.1.name, entry.2.census)) := by
  have hcounted : ∀ {graph : ObjectGraph}, graph.contracts.Named Contract.name →
      graph.wirings.map (fun entry => (entry.1.name, entry.2.census)) =
        (graph.containers.map graph.outlook).map fun entry =>
          (entry.1, (Wiring.provide (.ofClass Vocabulary.injector) .injector).census +
            Wiring.jointCensus entry.2) := by
    intro graph hgraph
    rw [wirings, List.map_map, List.map_map]
    exact List.map_congr_left fun container _ =>
      congrArg (container.name, ·) (Wiring.census_ofRoot hgraph container.module)
  rw [hcounted hgraph, hcounted htwin]
  exact halike.outlooks.map _

theorem Alike.length_containerFaults (checkCycles : Bool) :
    (graph.containers.flatMap fun container =>
        container.faults (.ofRoot graph container.module) checkCycles).length =
      (twin.containers.flatMap fun container =>
        container.faults (.ofRoot twin container.module) checkCycles).length := by
  have hlengths : (graph.wirings.map fun entry => (entry.1.faults entry.2 checkCycles).length).Perm
      (twin.wirings.map fun entry => (entry.1.faults entry.2 checkCycles).length) := by
    refine ClassPath.map_perm_of_keys (halike.wirings_perm hgraph htwin)
      fun entry _ like _ hsame => ?_
    exact Container.length_faults_congr (congrArg Prod.snd hsame) entry.1 like.1 checkCycles
  have hsum := hlengths.sum_eq
  rw [wirings, wirings, List.map_map, List.map_map] at hsum
  rw [List.length_flatMap, List.length_flatMap]
  exact hsum

theorem Alike.componentWirings_perm :
    ((graph.wirings.filter fun entry =>
        graph.components.any fun component => component.name = entry.1.name).map fun entry =>
          entry.2.census).Perm
      ((twin.wirings.filter fun entry =>
        twin.components.any fun component => component.name = entry.1.name).map fun entry =>
          entry.2.census) := by
  have hnames : ∀ name : ClassName, (twin.components.any fun component => component.name = name) =
      graph.components.any fun component => component.name = name := by
    intro name
    have hmem := halike.components.mem_iff (a := name)
    simp only [List.mem_map] at hmem
    rw [Bool.eq_iff_iff]
    simp only [List.any_eq_true, decide_eq_true_eq, hmem]
  have hfiltered := ((halike.wirings_perm hgraph htwin).filter fun counted =>
    graph.components.any fun component => component.name = counted.1).map Prod.snd
  rw [List.filter_map, List.filter_map, List.map_map, List.map_map] at hfiltered
  simp only [hnames]
  exact hfiltered

theorem Alike.length_targetFaults :
    (graph.targetFaults graph.wirings).length = (twin.targetFaults twin.wirings).length := by
  have hunprovided : ∀ name, (twin.providable? name).isNone = (graph.providable? name).isNone := by
    intro name
    rw [Bool.eq_iff_iff, Option.isNone_iff_eq_none, Option.isNone_iff_eq_none]
    simp only [providable?, List.find?_eq_none, halike.providable.mem_iff]
  have hcomponents := halike.componentWirings_perm hgraph htwin
  simp only [length_targetFaults_eq_countP, hunprovided]
  rw [(halike.injectable.filter _).countP_eq]
  refine List.countP_congr fun target _ => ?_
  rw [Bool.not_eq_true', Bool.not_eq_true', ← Bool.not_eq_true, ← Bool.not_eq_true,
    List.isEmpty_iff, List.isEmpty_iff, bestCandidates_eq_nil_congr hcomponents]

end ObjectGraph

theorem ClassPath.Rearranges.length_faults_validate {path other : ClassPath}
    (h : path.Rearranges other) {graph twin : ObjectGraph} (halike : graph.Alike twin)
    (hgraph : graph.contracts.Named Contract.name) (htwin : twin.contracts.Named Contract.name)
    (checkCycles : Bool) :
    (path.validate graph checkCycles).faults.length =
      (other.validate twin checkCycles).faults.length := by
  rw [faults_validate, faults_validate]
  simp only [List.length_append, (h.structuralFaults_perm halike).length_eq,
    halike.length_containerFaults hgraph htwin, halike.unattachedFaults_perm.length_eq,
    halike.length_targetFaults hgraph htwin]

end InjectionCompiler
