import InjectionCompiler.Plan
import InjectionCompiler.Proofs.Assignment
import InjectionCompiler.Proofs.Firsts

/-!
# What a plan holds

A plan lists for every module of the input the providers of its sources, in order, and for every
contract that such a module imports one provider for each getter.
-/

namespace InjectionCompiler

/-- The modules of the current input. -/
def ObjectGraph.inputModules (graph : ObjectGraph) (path : ClassPath) : List Module :=
  graph.modules.items.filter fun module => path.isInput module.name

/-- The contracts in range that modules of the input import. -/
def ObjectGraph.inputImports (graph : ObjectGraph) (path : ClassPath) :
    List (Id .contract × Contract × Bool) :=
  (Assigning.importedContracts (graph.inputModules path)).filterMap fun (id, lazy) =>
    (graph.contracts.get? id).map fun contract => (id, contract, lazy)

def Plan.slotEntries (keys : List Key) : List (Key × KeySlot) :=
  keys.zipIdx.filterMap fun (key, index) => (KeySlot.ofKey? key index).map fun slot => (key, slot)

/-- The keys that the units of a plan refer to. -/
def Plan.keys (plan : Plan) (graph : ObjectGraph) : List Key :=
  Plan.collectKeys graph plan.providers plan.contracts plan.factories

def Plan.ServeGetters (imported : Id .contract × Contract × Bool) (providers : List Provider) :
    Prop :=
  providers.map Provider.medium = imported.2.1.getters.map (.getter imported.1 imported.2.2)

variable {path : ClassPath} {graph : ObjectGraph} {before after : Assignment} {plan : Plan}

theorem Assigning.importedContracts_eq (modules : List Module) :
    importedContracts modules = firsts Prod.fst (modules.flatMap fun module =>
      module.imports.filterMap fun declared =>
        declared.contract?.map fun entry => (entry.1, entry.2.2)) := rfl

namespace ObjectGraph

theorem mem_inputModules {module : Module} :
    module ∈ graph.inputModules path ↔ module ∈ graph.modules.items ∧ path.isInput module.name := by
  simp [inputModules]

theorem WellFormed.nodup_inputModules (hgraph : graph.WellFormed) :
    ((graph.inputModules path).map Module.name).Nodup := by
  refine List.Nodup.sublist (List.filter_sublist.map _) ?_
  rw [hgraph.modules_named.map_items]
  exact graph.modules.table.distinct

theorem mem_inputContracts {contract : Contract} :
    contract ∈ (firsts id ((graph.inputModules path).flatMap Module.contracts)).filterMap
        graph.contracts.get? ↔
      ∃ module ∈ graph.inputModules path, contract ∈ graph.hostedContracts module := by
  simp only [List.mem_filterMap, mem_firsts_id, List.mem_flatMap, hostedContracts]
  constructor
  · rintro ⟨id, ⟨module, hmodule, hid⟩, hget⟩
    exact ⟨module, hmodule, id, hid, hget⟩
  · rintro ⟨module, hmodule, id, hid, hget⟩
    exact ⟨id, ⟨module, hmodule, hid⟩, hget⟩

theorem get?_of_mem_inputImports {id : Id .contract} {contract : Contract} {lazy : Bool}
    (h : (id, contract, lazy) ∈ graph.inputImports path) :
    graph.contracts.get? id = some contract := by
  obtain ⟨⟨other, lazy⟩, -, h⟩ := List.mem_filterMap.1 h
  obtain ⟨held, hheld, heq⟩ := Option.map_eq_some_iff.1 h
  cases heq
  exact hheld

theorem exists_mem_inputImports {module : Module} (hmodule : module ∈ graph.inputModules path)
    {id : Id .contract} {site : ImportSite} {lazy : Bool}
    (himport : .contract id site lazy ∈ module.imports) {contract : Contract}
    (hcontract : graph.contracts.get? id = some contract) :
    ∃ lazy, (id, contract, lazy) ∈ graph.inputImports path := by
  have hid : id ∈ (Assigning.importedContracts (graph.inputModules path)).map Prod.fst := by
    refine key_mem_map_firstsFrom.2 ⟨?_, List.not_mem_nil⟩
    refine List.mem_map.2 ⟨(id, lazy), List.mem_flatMap.2 ⟨module, hmodule, ?_⟩, rfl⟩
    exact List.mem_filterMap.2 ⟨_, himport, rfl⟩
  obtain ⟨⟨other, first⟩, hfirst, rfl⟩ := List.mem_map.1 hid
  refine ⟨first, List.mem_filterMap.2 ⟨_, hfirst, ?_⟩⟩
  exact Option.map_eq_some_iff.2 ⟨contract, hcontract, rfl⟩

theorem WellFormed.nodup_inputImports (hgraph : graph.WellFormed) :
    ((graph.inputImports path).map fun entry => entry.2.1.name).Nodup := by
  have hids : ((Assigning.importedContracts (graph.inputModules path)).map Prod.fst).Nodup :=
    nodup_map_firstsFrom Prod.fst [] _
  rw [List.Nodup, List.pairwise_map] at hids
  rw [List.Nodup, List.pairwise_map, inputImports, List.pairwise_filterMap]
  refine hids.imp ?_
  rintro ⟨a, _⟩ ⟨b, _⟩ hne first hfirst second hsecond hname
  obtain ⟨x, hx, rfl⟩ := Option.map_eq_some_iff.1 hfirst
  obtain ⟨y, hy, rfl⟩ := Option.map_eq_some_iff.1 hsecond
  exact hne (hgraph.contracts_named.id_unique hx hy hname)

end ObjectGraph

namespace Assigning

theorem exists_steps_of_composePlan (h : Ends (composePlan path graph) before plan after) :
    ∃ moduleEntries contractEntries middle assigned named,
      Ends ((graph.inputModules path).mapM fun module => do
          let providers ← ofModule graph module
          return (module.name, providers)) before moduleEntries middle ∧
        Ends ((graph.inputImports path).mapM fun (id, contract, lazy) => do
          let providers ← ofImport id contract lazy
          return (contract.name, providers)) middle contractEntries assigned ∧
        plan.byModule = Table.ofList moduleEntries ∧
        plan.byContract = Table.ofList contractEntries ∧
        plan.providers = firsts Provider.name
          (plan.byModule.values.flatten ++ plan.byContract.values.flatten) ∧
        plan.contracts = firsts id ((graph.inputModules path).flatMap Module.contracts) ∧
        plan.factories = (graph.factories.entries.filter fun (_, factory) =>
          path.isInput factory.name).map Prod.fst ∧
        Ends (composeInvaders path (plan.keys graph)) assigned plan.invaders named ∧
        Ends (composeRegistry (plan.keys graph)) named plan.registry after := by
  simp only [composePlan, ends_bind, ends_logged, ends_pure] at h
  obtain ⟨moduleEntries, middle, hmodules, contractEntries, assigned, hcontracts, invaders, named,
    hinvaders, registry, _, hregistry, -, _, ⟨-, rfl⟩, -, _, ⟨-, rfl⟩, rfl, rfl⟩ := h
  exact ⟨moduleEntries, contractEntries, middle, assigned, named, hmodules, hcontracts, rfl, rfl,
    rfl, rfl, rfl, hinvaders, hregistry⟩

theorem slots_of_composeRegistry {keys : List Key} {registry : KeyRegistry}
    (h : Ends (composeRegistry keys) before registry after) :
    registry.slots = Table.ofList (Plan.slotEntries keys) := by
  simp only [composeRegistry, ends_bind, ends_get, ends_pure] at h
  obtain ⟨-, _, -, name, _, -, rfl, -⟩ := h
  rfl

/-! ## The providers of modules and imported contracts -/

open Assignment

theorem moduleEntries_spec (hgraph : graph.WellFormed) (hsound : before.Sound graph)
    {entries : List (ClassName × List Provider)}
    (h : Ends ((graph.inputModules path).mapM fun module => do
      let providers ← ofModule graph module
      return (module.name, providers)) before entries after) :
    after.Sound graph ∧ Grows before after ∧
      List.Forall₂ (fun module entry => entry.1 = module.name ∧
        List.Forall₂ after.Serves (module.media graph) entry.2)
        (graph.inputModules path) entries := by
  refine ends_mapM (fun assignment module entry => entry.1 = module.name ∧
    List.Forall₂ assignment.Serves (module.media graph) entry.2) Grows.refl (fun _ _ _ => .trans)
    ?_ ?_ hsound h
  · rintro s t module entry hgrows ⟨hname, hserves⟩
    exact ⟨hname, hserves.imp fun _ _ h => h.grow hgrows⟩
  · intro module hmodule s entry t hs hends
    simp only [ends_bind, ends_pure] at hends
    obtain ⟨providers, _, hproviders, rfl, rfl⟩ := hends
    obtain ⟨ht, hgrows, hserves⟩ :=
      ofModule_spec hgraph (ObjectGraph.mem_inputModules.1 hmodule).1 hs hproviders
    exact ⟨ht, hgrows, rfl, hserves⟩

theorem contractEntries_spec (hgraph : graph.WellFormed) (hsound : before.Sound graph)
    {entries : List (ClassName × List Provider)}
    (h : Ends ((graph.inputImports path).mapM fun (id, contract, lazy) => do
      let providers ← ofImport id contract lazy
      return (contract.name, providers)) before entries after) :
    after.Sound graph ∧ Grows before after ∧
      List.Forall₂ (fun imported entry => entry.1 = imported.2.1.name ∧
        Plan.ServeGetters imported entry.2) (graph.inputImports path) entries := by
  refine ends_mapM (fun _ imported entry => entry.1 = imported.2.1.name ∧
    Plan.ServeGetters imported entry.2) Grows.refl (fun _ _ _ => .trans) ?_ ?_ hsound h
  · exact fun _ _ _ _ _ hrelated => hrelated
  · rintro ⟨id, contract, lazy⟩ himport s entry t hs hends
    simp only [ends_bind, ends_pure] at hends
    obtain ⟨providers, _, hproviders, rfl, rfl⟩ := hends
    obtain ⟨ht, hgrows, hmedia⟩ :=
      ofImport_spec hgraph (ObjectGraph.get?_of_mem_inputImports himport) hs hproviders
    exact ⟨ht, hgrows, rfl, hmedia⟩

end Assigning

/-! ## Complete plans -/

/-- The plan holds the providers of all modules of the input and of all contracts they import, and
nothing else.  `assigned` remembers the provider of each binding. -/
structure Plan.Complete (path : ClassPath) (graph : ObjectGraph) (assigned : Assignment)
    (plan : Plan) : Prop where
  module_served : ∀ module ∈ graph.inputModules path,
    ∃ providers, plan.byModule.find? module.name = some providers ∧
      List.Forall₂ assigned.Serves (module.media graph) providers
  of_module : ∀ name providers, (name, providers) ∈ plan.byModule.entries →
    ∃ module ∈ graph.inputModules path, module.name = name ∧
      List.Forall₂ assigned.Serves (module.media graph) providers
  import_served : ∀ module ∈ graph.inputModules path, ∀ id site lazy contract,
    .contract id site lazy ∈ module.imports → graph.contracts.get? id = some contract →
      ∃ providers first, plan.byContract.find? contract.name = some providers ∧
        providers.map Provider.medium = contract.getters.map (.getter id first)
  of_import : ∀ name providers, (name, providers) ∈ plan.byContract.entries →
    ∃ id contract lazy, graph.contracts.get? id = some contract ∧ contract.name = name ∧
      providers.map Provider.medium = contract.getters.map (.getter id lazy)
  providers_eq : plan.providers =
    firsts Provider.name (plan.byModule.values.flatten ++ plan.byContract.values.flatten)
  slots_eq : plan.registry.slots = Table.ofList (Plan.slotEntries (plan.keys graph))

theorem Plan.complete_of_entries (hgraph : graph.WellFormed) (hsound : before.Sound graph)
    {moduleEntries contractEntries : List (ClassName × List Provider)}
    {middle assigned : Assignment}
    (hmodules : Ends ((graph.inputModules path).mapM fun module => do
      let providers ← Assigning.ofModule graph module
      return (module.name, providers)) before moduleEntries middle)
    (hcontracts : Ends ((graph.inputImports path).mapM fun (id, contract, lazy) => do
      let providers ← Assigning.ofImport id contract lazy
      return (contract.name, providers)) middle contractEntries assigned)
    (hbyModule : plan.byModule = Table.ofList moduleEntries)
    (hbyContract : plan.byContract = Table.ofList contractEntries)
    (hproviders : plan.providers =
      firsts Provider.name (plan.byModule.values.flatten ++ plan.byContract.values.flatten))
    (hslots : plan.registry.slots = Table.ofList (Plan.slotEntries (plan.keys graph))) :
    plan.Complete path graph assigned := by
  obtain ⟨hmiddle, -, hmodules⟩ := Assigning.moduleEntries_spec hgraph hsound hmodules
  obtain ⟨-, hgrows, hcontracts⟩ := Assigning.contractEntries_spec hgraph hmiddle hcontracts
  -- The providers of modules were assigned before those of imports, which take nothing back.
  have hserved : List.Forall₂ (fun module entry => entry.1 = module.name ∧
      List.Forall₂ assigned.Serves (module.media graph) entry.2)
      (graph.inputModules path) moduleEntries :=
    hmodules.imp fun module entry h => ⟨h.1, h.2.imp fun _ _ h => h.grow hgrows⟩
  have hmoduleNames : (moduleEntries.map Prod.fst).Nodup := by
    rw [Table.map_fst_of_forall₂ hserved]
    exact hgraph.nodup_inputModules
  have hcontractNames : (contractEntries.map Prod.fst).Nodup := by
    rw [Table.map_fst_of_forall₂ hcontracts]
    exact hgraph.nodup_inputImports
  constructor
  case module_served =>
    intro module hmodule
    rw [hbyModule]
    exact Table.find?_ofList_of_forall₂ hserved hgraph.nodup_inputModules hmodule
  case of_module =>
    intro name providers hentry
    rw [hbyModule, Table.entries_ofList hmoduleNames] at hentry
    obtain ⟨module, hmodule, hname, hserves⟩ := exists_left_of_forall₂ hserved hentry
    exact ⟨module, hmodule, hname.symm, hserves⟩
  case import_served =>
    intro module hmodule id site lazy contract himport hcontract
    obtain ⟨first, hmem⟩ := ObjectGraph.exists_mem_inputImports hmodule himport hcontract
    obtain ⟨providers, hfind, hmedia⟩ :=
      Table.find?_ofList_of_forall₂ hcontracts hgraph.nodup_inputImports hmem
    rw [hbyContract]
    exact ⟨providers, first, hfind, hmedia⟩
  case of_import =>
    intro name providers hentry
    rw [hbyContract, Table.entries_ofList hcontractNames] at hentry
    obtain ⟨⟨id, contract, lazy⟩, hmem, hname, hmedia⟩ :=
      exists_left_of_forall₂ hcontracts hentry
    exact ⟨id, contract, lazy, ObjectGraph.get?_of_mem_inputImports hmem, hname.symm, hmedia⟩
  case providers_eq => exact hproviders
  case slots_eq => exact hslots

theorem Plan.exists_complete (hgraph : graph.WellFormed) (hsound : before.Sound graph)
    (h : Ends (Assigning.composePlan path graph) before plan after) :
    ∃ assigned, plan.Complete path graph assigned := by
  obtain ⟨moduleEntries, contractEntries, middle, assigned, named, hmodules, hcontracts, hbyModule,
    hbyContract, hproviders, -, -, -, hregistry⟩ := Assigning.exists_steps_of_composePlan h
  exact ⟨assigned, complete_of_entries hgraph hsound hmodules hcontracts hbyModule hbyContract
    hproviders (Assigning.slots_of_composeRegistry hregistry)⟩

end InjectionCompiler
