import InjectionCompiler.Proofs.Likeness
import InjectionCompiler.Proofs.Validity
import Mathlib.Algebra.BigOperators.Group.Multiset.Basic
import Mathlib.Algebra.Group.Prod
import Mathlib.Data.Multiset.Bind
import Mathlib.Tactic.Abel

/-!
# The census of a wiring

How many faults a container has depends on no more than how often each key is provided, which keys
are required, and which edges there are.  These counts add up over the parts of a wiring, and so a
container has them from what its effective modules show.
-/

namespace InjectionCompiler

namespace Wiring

/-! ## Counting keys -/

abbrev Census := Multiset Key × Multiset Key × Multiset (Key × Key)

def census (wiring : Wiring) : Census :=
  (wiring.provided.map Prod.fst, wiring.required.map Prod.fst, wiring.edges)

@[simp] theorem census_empty : (∅ : Wiring).census = 0 := rfl

@[simp] theorem census_append (a b : Wiring) : (a ++ b).census = a.census + b.census := by
  simp only [census, provided_append, required_append, edges_append, List.map_append,
    ← Multiset.coe_add]
  rfl

theorem census_join (wirings : List Wiring) :
    (join wirings).census = (wirings.map census).sum := by
  induction wirings with
  | nil => rfl
  | cons wiring wirings ih =>
      have hcons : join (wiring :: wirings) = wiring ++ join wirings := ext rfl rfl rfl
      rw [hcons, census_append, ih, List.map_cons, List.sum_cons]

theorem census_join_map {α : Type} (part : α → Wiring) (counted : α → Census)
    (h : ∀ x, (part x).census = counted x) (xs : List α) :
    (join (xs.map part)).census = ((xs : Multiset α).map counted).sum := by
  rw [census_join, List.map_map, Multiset.map_coe, Multiset.sum_coe]
  exact congrArg List.sum (List.map_congr_left fun x _ => h x)

/-! ## The parts of a module -/

def pointCensus (point : ProvisionPoint) : Census :=
  (ofPoint point.owner point).census

def bindingCensus (binding : Binding) : Census :=
  (ofBinding .object binding).census

def factoryCensus (factory : Factory) : Census :=
  (ofFactory factory.name factory).census

def contractCensus (contract : Contract) : Census :=
  (ofContract contract.name contract).census

def importCensus (contract : Contract) : Census :=
  (ofImport contract (.importedBy contract.name contract.name)).census

theorem census_ofImport (contract : Contract) (site : ImportSite) :
    (ofImport contract site).census = importCensus contract := by
  have hgetters : ∀ site, (join (contract.getters.map fun getter =>
      provide getter.injectee.key (.importedGetter getter site))).census =
        ((contract.getters : Multiset Getter).map fun getter =>
          ({getter.injectee.key.boxed}, 0, 0)).sum :=
    fun site => census_join_map _ _ (fun _ => rfl) contract.getters
  rw [importCensus, ofImport, ofImport, census_append, census_append, hgetters, hgetters]
  rfl

def ownCensus (showing : Showing) : Census :=
  (showing.points.map pointCensus).sum + (showing.factories.map factoryCensus).sum +
    (showing.contracts.map contractCensus).sum

theorem census_ofImports (graph : ObjectGraph) (imports : List (Id .contract × ImportSite)) :
    (join (imports.filterMap fun (id, site) =>
      (graph.contracts.get? id).map fun contract => ofImport contract site)).census =
        (((imports.map Prod.fst).filterMap graph.contracts.get? : Multiset Contract).map
          importCensus).sum := by
  rw [census_join, Multiset.map_coe, Multiset.sum_coe, List.map_filterMap, List.filterMap_map,
    List.map_filterMap]
  refine congrArg List.sum (List.filterMap_congr fun (id, site) _ => ?_)
  dsimp only [Function.comp_apply]
  rw [Option.map_map]
  exact Option.map_congr fun contract _ => census_ofImport contract site

theorem census_ofModule (graph : ObjectGraph) (module : Module) (bindings : List Binding)
    (imports : List (Id .contract × ImportSite)) :
    (ofModule graph module bindings imports).census =
      ownCensus (graph.showing module) + ((bindings : Multiset Binding).map bindingCensus).sum +
        (((imports.map Prod.fst).filterMap graph.contracts.get? : Multiset Contract).map
          importCensus).sum := by
  have hpoints := census_join_map (ofPoint module.name) pointCensus
    (fun _ => rfl) module.provisionPoints
  have hbindings := census_join_map (ofBinding module.name) bindingCensus
    (fun _ => rfl) bindings
  have hfactories := census_join_map (ofFactory module.name) factoryCensus
    (fun _ => rfl) (graph.hostedFactories module)
  have hcontracts := census_join_map (ofContract module.name) contractCensus
    (fun _ => rfl) (graph.hostedContracts module)
  simp only [ofModule, census_append, hpoints, hbindings, hfactories, hcontracts,
    census_ofImports, ownCensus, ObjectGraph.showing]
  abel

/-! ## The whole container -/

/-- What is counted for modules together: the parts of each, every binding once, and every imported
contract once. -/
def jointCensus (showings : Multiset Showing) : Census :=
  (showings.map ownCensus).sum +
    ((showings.bind Showing.bindings).dedup.map bindingCensus).sum +
    ((showings.bind Showing.imports).dedup.map importCensus).sum

theorem census_ofModules (graph : ObjectGraph) (bindings : List Binding)
    (contracts : List (Id .contract)) (modules : List Module) :
    (ofModules graph bindings contracts modules).census =
      ((modules.map graph.showing : Multiset Showing).map ownCensus).sum +
        ((firstsFrom id bindings (modules.flatMap Module.bindings) : Multiset Binding).map
          bindingCensus).sum +
        ((((firstsFrom Prod.fst contracts (modules.flatMap contractImports)).map
          Prod.fst).filterMap graph.contracts.get? : Multiset Contract).map importCensus).sum := by
  induction modules generalizing bindings contracts with
  | nil => rfl
  | cons module modules ih =>
      rw [ofModules, census_append, census_ofModule, ih, List.flatMap_cons, List.flatMap_cons,
        firstsFrom_append, firstsFrom_append]
      simp only [List.map_cons, List.map_append, List.filterMap_append, ← Multiset.cons_coe,
        ← Multiset.coe_add, Multiset.map_cons, Multiset.map_add, Multiset.sum_cons,
        Multiset.sum_add, List.map_id]
      abel

theorem coe_firsts {α : Type} [DecidableEq α] (xs : List α) :
    (firsts id xs : Multiset α) = (xs : Multiset α).dedup := by
  refine (Multiset.Nodup.ext (Multiset.coe_nodup.2 (nodup_firsts_id xs))
    (Multiset.nodup_dedup _)).2 fun x => ?_
  rw [Multiset.mem_coe, Multiset.mem_dedup, Multiset.mem_coe, mem_firsts_id]

theorem coe_filterMap_firsts {graph : ObjectGraph} (hgraph : graph.contracts.Named Contract.name)
    {α : Type} (imports : List (Id .contract × α)) :
    (((firsts Prod.fst imports).map Prod.fst).filterMap graph.contracts.get? :
      Multiset Contract) =
        ((imports.map Prod.fst).filterMap graph.contracts.get? : Multiset Contract).dedup := by
  have hnodup : (((firsts Prod.fst imports).map Prod.fst).filterMap
      graph.contracts.get?).Nodup := by
    refine (nodup_map_firstsFrom Prod.fst [] imports).filterMap fun a b contract ha hb => ?_
    exact hgraph.id_unique ha hb rfl
  refine (Multiset.Nodup.ext (Multiset.coe_nodup.2 hnodup) (Multiset.nodup_dedup _)).2
    fun contract => ?_
  have hids : ∀ id, id ∈ (firsts Prod.fst imports).map Prod.fst ↔ id ∈ imports.map Prod.fst :=
    fun id => key_mem_map_firstsFrom.trans (and_iff_left List.not_mem_nil)
  simp only [Multiset.mem_coe, Multiset.mem_dedup, List.mem_filterMap, hids]

theorem bind_imports (graph : ObjectGraph) (modules : List Module) :
    (modules.map graph.showing : Multiset Showing).bind Showing.imports =
      (((modules.flatMap contractImports).map Prod.fst).filterMap graph.contracts.get? :
        Multiset Contract) := by
  rw [← Multiset.map_coe, Multiset.bind_map, List.map_flatMap, List.filterMap_flatMap]
  exact Multiset.coe_bind _ _

theorem census_ofRoot {graph : ObjectGraph} (hgraph : graph.contracts.Named Contract.name)
    (root : Id .module) :
    (ofRoot graph root).census =
      (provide (.ofClass Vocabulary.injector) .injector).census +
        jointCensus ((graph.effectiveModules root).map graph.showing) := by
  have hbindings : ((graph.effectiveModules root).map graph.showing : Multiset Showing).bind
      Showing.bindings = ((graph.effectiveModules root).flatMap Module.bindings) := by
    rw [← Multiset.map_coe, Multiset.bind_map]
    exact Multiset.coe_bind _ Module.bindings
  rw [ofRoot, census_append, census_ofModules, jointCensus, ← firsts, ← firsts, coe_firsts,
    coe_filterMap_firsts hgraph, hbindings, bind_imports]

/-! ## Faults -/

theorem exists_mem_duplicates_iff {wiring : Wiring} {key : Key} {count : Nat} :
    (∃ listed, (key, listed) ∈ wiring.duplicates ∧ listed.length = count) ↔
      Multiset.count key wiring.census.1 = count ∧ 1 < count := by
  have hcount : Multiset.count key wiring.census.1 =
      ((wiring.provided.filter fun entry => entry.1 = key).map Prod.snd).length := by
    rw [census, Multiset.coe_count, List.count_eq_countP, List.countP_map, List.length_map,
      ← List.countP_eq_length_filter]
    exact List.countP_congr fun entry _ => by simp
  rw [hcount]
  constructor
  · rintro ⟨listed, hlisted, rfl⟩
    obtain ⟨rfl, hlong⟩ := mem_duplicates.1 hlisted
    exact ⟨rfl, hlong⟩
  · rintro ⟨rfl, hlong⟩
    exact ⟨_, mem_duplicates.2 ⟨rfl, hlong⟩, rfl⟩

theorem length_duplicates_congr {wiring other : Wiring} (h : wiring.census = other.census) :
    wiring.duplicates.length = other.duplicates.length := by
  have hmem : ∀ (wiring : Wiring) key, key ∈ wiring.duplicates.map Prod.fst ↔
      1 < Multiset.count key wiring.census.1 := by
    intro wiring key
    have hcounted := @exists_mem_duplicates_iff wiring key
    constructor
    · intro hkey
      obtain ⟨⟨_, listed⟩, hlisted, rfl⟩ := List.mem_map.1 hkey
      obtain ⟨hcount, hlong⟩ := hcounted.1 ⟨listed, hlisted, rfl⟩
      rwa [hcount]
    · intro hlong
      obtain ⟨listed, hlisted, -⟩ := hcounted.2 ⟨rfl, hlong⟩
      exact List.mem_map.2 ⟨_, hlisted, rfl⟩
  have hperm : (wiring.duplicates.map Prod.fst).Perm (other.duplicates.map Prod.fst) := by
    refine (List.perm_ext_iff_of_nodup (nodup_map_fst_duplicates _)
      (nodup_map_fst_duplicates _)).2 fun key => ?_
    rw [hmem, hmem, h]
  simpa only [List.length_map] using hperm.length_eq

theorem resolves_iff_mem_census {wiring : Wiring} {key : Key} :
    wiring.resolves key = true ↔ key.boxed ∈ wiring.census.1 := by
  rw [resolves, List.contains_iff_mem, census, Multiset.mem_coe]

theorem resolves_congr {wiring other : Wiring} (h : wiring.census = other.census) (key : Key) :
    wiring.resolves key = other.resolves key := by
  rw [Bool.eq_iff_iff, resolves_iff_mem_census, resolves_iff_mem_census, h]

theorem mem_unresolved_congr {wiring other : Wiring} (h : wiring.census = other.census)
    (key : Key) : key ∈ wiring.unresolved.map Prod.fst ↔ key ∈ other.unresolved.map Prod.fst := by
  have hmem : ∀ wiring : Wiring, key ∈ wiring.unresolved.map Prod.fst ↔
      key ∈ wiring.census.2.1 ∧ wiring.resolves key = false := by
    intro wiring
    rw [List.mem_map]
    constructor
    · rintro ⟨⟨_, requirers⟩, hmissing, rfl⟩
      obtain ⟨hrequired, hnone, -⟩ := mem_unresolved.1 hmissing
      exact ⟨hrequired, hnone⟩
    · exact fun ⟨hrequired, hnone⟩ => ⟨_, mem_unresolved.2 ⟨hrequired, hnone, rfl⟩, rfl⟩
  rw [hmem, hmem, h, resolves_congr h]

theorem length_unresolved_congr {wiring other : Wiring} (h : wiring.census = other.census) :
    wiring.unresolved.length = other.unresolved.length := by
  have hperm : (wiring.unresolved.map Prod.fst).Perm (other.unresolved.map Prod.fst) :=
    (List.perm_ext_iff_of_nodup (nodup_map_fst_unresolved _) (nodup_map_fst_unresolved _)).2
      (mem_unresolved_congr h)
  simpa only [List.length_map] using hperm.length_eq

theorem mem_edges_congr {wiring other : Wiring} (h : wiring.census = other.census)
    (edge : Key × Key) : edge ∈ wiring.edges ↔ edge ∈ other.edges :=
  (Multiset.coe_eq_coe.1 (congrArg (fun census => census.2.2) h)).mem_iff

theorem length_cycles_congr {wiring other : Wiring} (h : wiring.census = other.census) :
    wiring.cycles.length = other.cycles.length :=
  Cycle.length_cycles_congr (mem_edges_congr h)

end Wiring

open Wiring

theorem Container.length_faults_congr {wiring other : Wiring} (h : wiring.census = other.census)
    (container twin : Container) (checkCycles : Bool) :
    (container.faults wiring checkCycles).length = (twin.faults other checkCycles).length := by
  simp only [faults, List.length_append, List.length_map, length_duplicates_congr h,
    length_unresolved_congr h]
  split
  · simp only [List.length_map, length_cycles_congr h]
  · rfl

end InjectionCompiler
