import InjectionCompiler.Proofs.Demand

/-!
# What modules need names for

The names that a plan needs are told by what the modules of the input show: each constructor,
binding, factory and contract needs one, each method and field one for each module, and each getter
one for each imported contract.
-/

namespace InjectionCompiler

open Provision (Need IsShared distinct)

theorem filterMap_zipIdx {α β : Type} {entry : α × Nat → Option β} {item : α → Option β}
    (h : ∀ x index, entry (x, index) = item x) (xs : List α) :
    xs.zipIdx.filterMap entry = xs.filterMap item := by
  have hfst : xs.filterMap item = (xs.zipIdx.map Prod.fst).filterMap item := by
    rw [List.zipIdx_map_fst]
  rw [hfst, List.filterMap_map]
  exact List.filterMap_congr fun (x, index) _ => h x index

theorem map_filter_eq_filterMap {α β : Type} (item : α → β) (keep : α → Prop) [DecidablePred keep]
    (xs : List α) : (xs.filter keep).map item =
      xs.filterMap fun x => if keep x then some (item x) else none := by
  induction xs with
  | nil => rfl
  | cons x xs ih =>
      by_cases hx : keep x <;> simp [hx, ih]

/-! ## Points -/

namespace ProvisionPoint

def shared? (point : ProvisionPoint) : Option Provision :=
  match point.origin with
  | .constructor _ => some (.constructor point.owner)
  | .method _ _ => none
  | .field _ => none

def memberKind? (point : ProvisionPoint) : Option String :=
  match point.origin with
  | .constructor _ => none
  | .method _ _ => some "MethodProvider"
  | .field _ => some "FieldProvider"

theorem filter_provision (module : ClassName) (index : Nat) (point : ProvisionPoint) :
    (if (point.provision module index).IsShared then some (point.provision module index)
      else none) = point.shared? := by
  unfold provision shared?
  cases point.origin <;> simp [IsShared]

theorem need_provision (module : ClassName) (index : Nat) (point : ProvisionPoint) :
    (if ¬ (point.provision module index).IsShared then some (point.provision module index).need
      else none) = point.memberKind?.map fun kind => (.ok module, kind) := by
  unfold provision memberKind?
  cases point.origin <;> simp [IsShared, Provision.need, Provision.owner, Provision.kind]

end ProvisionPoint

/-! ## Showings -/

namespace Showing

def shared (showing : Showing) : Multiset Provision :=
  showing.points.filterMap ProvisionPoint.shared? + (showing.bindings.map .binding +
    (showing.factories.map (fun factory => .factory factory.name) +
      showing.contracts.map fun contract => .contract contract.name))

def members (showing : Showing) : Multiset Need :=
  showing.points.filterMap fun point =>
    point.memberKind?.map fun kind => (.ok showing.name, kind)

def getterNeeds (contract : Contract) : Multiset Need :=
  (contract.getters : Multiset Getter).map fun _ => (.ok contract.name, "MethodProvider")

def needs (showings : Multiset Showing) : Multiset Need :=
  (showings.bind shared).dedup.map Provision.need +
    (showings.bind members + (showings.bind imports).dedup.bind getterNeeds)

end Showing

/-! ## Requests -/

variable {graph : ObjectGraph} {path : ClassPath}

namespace ProviderRequest

theorem shared_module (graph : ObjectGraph) (module : Module) :
    (((ProviderRequest.module module).provisions graph).filter IsShared : Multiset Provision) =
      (graph.showing module).shared := by
  have hpoints : (module.provisionPoints.zipIdx.map fun entry =>
      entry.1.provision module.name entry.2).filter IsShared =
        module.provisionPoints.filterMap ProvisionPoint.shared? := by
    rw [← List.map_id (List.filter _ _), map_filter_eq_filterMap, List.filterMap_map]
    exact filterMap_zipIdx (fun point index => point.filter_provision module.name index) _
  have hrest := List.filter_eq_self.2 fun provision hmem =>
    decide_eq_true (@isShared_of_mem_sharedPart graph module provision hmem)
  rw [provisions_module, List.filter_append, hpoints, hrest, ← Multiset.coe_add,
    ← Multiset.coe_add, ← Multiset.coe_add, Showing.shared, ObjectGraph.showing,
    ← module.map_snd_knownFactories graph, ← module.map_snd_knownContracts graph,
    Multiset.filterMap_coe, Multiset.map_coe, Multiset.map_coe, Multiset.map_coe, List.map_map,
    List.map_map]
  rfl

theorem members_module (graph : ObjectGraph) (module : Module) :
    ((((ProviderRequest.module module).provisions graph).filter (¬ IsShared ·)).map
      Provision.need : Multiset Need) = (graph.showing module).members := by
  have hpoints : ((module.provisionPoints.zipIdx.map fun entry =>
      entry.1.provision module.name entry.2).filter (¬ IsShared ·)).map Provision.need =
        module.provisionPoints.filterMap fun point =>
          point.memberKind?.map fun kind => (.ok module.name, kind) := by
    rw [map_filter_eq_filterMap, List.filterMap_map]
    exact filterMap_zipIdx (fun point index => point.need_provision module.name index) _
  have hrest := (List.filter_eq_nil_iff (p := fun provision : Provision =>
    ¬ provision.IsShared)).2 fun provision hmem hout =>
      of_decide_eq_true hout (@isShared_of_mem_sharedPart graph module provision hmem)
  rw [provisions_module, List.filter_append, List.map_append, hpoints, hrest, List.map_nil,
    List.append_nil, Showing.members, ObjectGraph.showing, Multiset.filterMap_coe]

theorem shared_imported (graph : ObjectGraph) (id : Id .contract) (contract : Contract)
    (lazy : Bool) :
    ((ProviderRequest.imported id contract lazy).provisions graph).filter IsShared = [] := by
  rw [provisions_imported, List.filter_eq_nil_iff]
  intro provision hmem
  obtain ⟨_, -, rfl⟩ := List.mem_map.1 hmem
  exact of_decide_eq_false rfl

theorem members_imported (graph : ObjectGraph) (id : Id .contract) (contract : Contract)
    (lazy : Bool) :
    ((((ProviderRequest.imported id contract lazy).provisions graph).filter (¬ IsShared ·)).map
      Provision.need : Multiset Need) = Showing.getterNeeds contract := by
  have hgetters : (((ProviderRequest.imported id contract lazy).provisions graph).filter
      (¬ IsShared ·)).map Provision.need =
        contract.getters.map fun _ => (.ok contract.name, "MethodProvider") := by
    rw [provisions_imported, map_filter_eq_filterMap, List.filterMap_map,
      ← List.filterMap_eq_map]
    exact filterMap_zipIdx (fun _ _ => rfl) _
  rw [hgetters, Showing.getterNeeds, Multiset.map_coe]

end ProviderRequest

def ObjectGraph.inputShowings (graph : ObjectGraph) (path : ClassPath) : Multiset Showing :=
  (graph.inputModules path).map graph.showing

theorem ObjectGraph.coe_inputImports (hgraph : graph.contracts.Named Contract.name) :
    ((graph.inputImports path).map fun entry => entry.2.1 : Multiset Contract) =
      ((graph.inputShowings path).bind Showing.imports).dedup := by
  have hlisted : (graph.inputImports path).map (fun entry => entry.2.1) =
      ((Assigning.importedContracts (graph.inputModules path)).map Prod.fst).filterMap
        graph.contracts.get? := by
    rw [inputImports, List.map_filterMap, List.filterMap_map]
    refine List.filterMap_congr fun imported _ => ?_
    dsimp only [Function.comp_apply]
    rw [Option.map_map]
    exact Option.map_id'
  have hids : ((graph.inputModules path).flatMap fun module =>
      module.imports.filterMap fun declared =>
        declared.contract?.map fun entry => (entry.1, entry.2.2)).map Prod.fst =
        ((graph.inputModules path).flatMap Wiring.contractImports).map Prod.fst := by
    rw [List.map_flatMap, List.map_flatMap]
    refine List.flatMap_congr fun module _ => ?_
    rw [Wiring.contractImports, List.map_filterMap, List.map_filterMap]
    refine List.filterMap_congr fun declared _ => ?_
    rw [Option.map_map, Option.map_map]
    rfl
  rw [hlisted, Assigning.importedContracts_eq, Wiring.coe_filterMap_firsts hgraph, hids,
    inputShowings, Wiring.bind_imports]

theorem coe_flatMap {α β : Type} {part : α → List β} {counted : α → Multiset β} (xs : List α)
    (h : ∀ x, (part x : Multiset β) = counted x) :
    (xs.flatMap part : Multiset β) = (xs : Multiset α).bind counted :=
  (Multiset.coe_bind xs part).symm.trans (Multiset.bind_congr fun x _ => h x)

theorem ObjectGraph.needs_eq (hgraph : graph.contracts.Named Contract.name) :
    graph.needs path = Showing.needs (graph.inputShowings path) := by
  have hshared : (((graph.requests path).flatMap (ProviderRequest.provisions graph)).filter
      IsShared : Multiset Provision) =
        (graph.inputShowings path).bind Showing.shared := by
    have hnone : (graph.inputImports path).flatMap (fun entry =>
        ((ProviderRequest.imported entry.1 entry.2.1 entry.2.2).provisions graph).filter
          IsShared) = [] :=
      List.flatMap_eq_nil_iff.2 fun _ _ => ProviderRequest.shared_imported ..
    rw [inputShowings, requests, List.flatMap_append, List.flatMap_map, List.flatMap_map,
      List.filter_append, List.filter_flatMap, List.filter_flatMap, hnone, List.append_nil,
      ← Multiset.map_coe, Multiset.bind_map]
    exact coe_flatMap _ (ProviderRequest.shared_module graph)
  have hmembers : ((((graph.requests path).flatMap (ProviderRequest.provisions graph)).filter
      (¬ IsShared ·)).map Provision.need : Multiset Need) =
        (graph.inputShowings path).bind Showing.members +
          ((graph.inputImports path).map fun entry =>
            entry.2.1 : Multiset Contract).bind Showing.getterNeeds := by
    rw [inputShowings, requests, List.flatMap_append, List.flatMap_map, List.flatMap_map,
      List.filter_append, List.filter_flatMap, List.filter_flatMap, List.map_append,
      List.map_flatMap, List.map_flatMap, ← Multiset.coe_add, ← Multiset.map_coe, Multiset.bind_map,
      ← Multiset.map_coe, Multiset.bind_map]
    refine congrArg₂ (· + ·) (coe_flatMap _ (ProviderRequest.members_module graph)) ?_
    exact coe_flatMap _ fun entry => ProviderRequest.members_imported ..
  rw [needs, distinct, Multiset.map_add, Multiset.filter_coe, Multiset.filter_coe, hshared,
    Multiset.map_coe, hmembers, coe_inputImports hgraph, Showing.needs]

end InjectionCompiler
