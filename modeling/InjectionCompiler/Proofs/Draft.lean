import InjectionCompiler.Proofs.Artifacts
import InjectionCompiler.Proofs.Needs
import InjectionCompiler.Proofs.Room

/-!
# Drafted plans

A plan whose providers are assigned lacks only the names of its helpers.  The keys that it refers to
are told by what the modules of the input show, and by the factories of the input.
-/

namespace InjectionCompiler

namespace Plan

/-- A plan with these providers, with a slot for each key and without names for its helpers. -/
def draft (path : ClassPath) (graph : ObjectGraph)
    (entries : List (ClassName × List Provider) × List (ClassName × List Provider)) : Plan :=
  let byModule := Table.ofList entries.1
  let byContract := Table.ofList entries.2
  let contracts := firsts id ((graph.inputModules path).flatMap Module.contracts)
  let factories := (graph.factories.entries.filter fun entry =>
    path.isInput entry.2.name).map Prod.fst
  let providers := firsts Provider.name (byModule.values.flatten ++ byContract.values.flatten)
  { byModule := byModule
    byContract := byContract
    providers := providers
    invaders := []
    contracts := contracts
    factories := factories
    registry := ⟨⟨""⟩, Table.ofList
      (slotEntries (collectKeys graph providers contracts factories))⟩ }

end Plan

namespace Assigning

theorem composePlan_eq (path : ClassPath) (graph : ObjectGraph) :
    composePlan path graph = (do
      let entries ← ofRequests path graph
      let draft := Plan.draft path graph entries
      let helpers ← (do
        let invaders ← composeInvaders path (draft.keys graph)
        let registry ← composeRegistry (draft.keys graph)
        return (invaders, registry))
      Logged.debug "Composed generation helpers" [
        ("invaders", toString helpers.1.length),
        ("registry_keys", toString helpers.2.slots.size)]
      Logged.info ("Assembled " ++ toString draft.providers.length ++ " providers, " ++
        toString draft.contracts.length ++ " contracts and " ++
        toString draft.factories.length ++ " factories") []
      return { draft with invaders := helpers.1, registry := helpers.2 }) := by
  unfold composePlan ofRequests
  simp only [bind_assoc, pure_bind]
  rfl

end Assigning

/-! ## The keys of media -/

def Medium.keys (graph : ObjectGraph) (medium : Medium) : List Key :=
  Plan.providerKeys graph ⟨⟨""⟩, medium⟩

namespace Medium

variable {graph : ObjectGraph}

theorem keys_provisionPoint (point : ProvisionPoint) :
    (provisionPoint point).keys graph = point.key :: point.injectees.map Dependency.key := rfl

theorem keys_binding (bound : Binding) :
    (binding bound).keys graph = [bound.ancestor, bound.implementation] := rfl

theorem keys_factory {id : Id .factory} {held : Factory}
    (h : graph.factories.get? id = some held) : (factory id).keys graph = [held.key] := by
  simp [keys, Plan.providerKeys, Provider.key?, h]

theorem keys_contract {id : Id .contract} {held : Contract}
    (h : graph.contracts.get? id = some held) : (contract id).keys graph = [held.key] := by
  simp [keys, Plan.providerKeys, Provider.key?, h]

theorem keys_getter {id : Id .contract} {held : Contract}
    (h : graph.contracts.get? id = some held) (lazy : Bool) (served : Getter) :
    (getter id lazy served).keys graph = [served.injectee.key, held.key] := by
  simp [keys, Plan.providerKeys, Provider.key?, h]

end Medium

/-- What a module of the input makes generated code refer to. -/
inductive Showing.Refers (showing : Showing) : Key → Prop where
  | point {point : ProvisionPoint} (h : point ∈ showing.points) : Refers showing point.key
  | injectee {point : ProvisionPoint} {injectee : Dependency} (h : point ∈ showing.points)
      (hinjectee : injectee ∈ point.injectees) : Refers showing injectee.key
  | ancestor {bound : Binding} (h : bound ∈ showing.bindings) : Refers showing bound.ancestor
  | implementation {bound : Binding} (h : bound ∈ showing.bindings) :
      Refers showing bound.implementation
  | factory {factory : Factory} (h : factory ∈ showing.factories) : Refers showing factory.key
  | contract {contract : Contract} {key : Key} (h : contract ∈ showing.contracts)
      (hkey : key ∈ Plan.contractKeys contract) : Refers showing key
  | imported {contract : Contract} {getter : Getter} (h : contract ∈ showing.imports)
      (hgetter : getter ∈ contract.getters) : Refers showing contract.key
  | getter {contract : Contract} {getter : Getter} (h : contract ∈ showing.imports)
      (hgetter : getter ∈ contract.getters) : Refers showing getter.injectee.key

variable {path : ClassPath} {graph : ObjectGraph}

namespace ObjectGraph

def media (graph : ObjectGraph) (path : ClassPath) : List Medium :=
  (graph.inputModules path).flatMap (Module.media graph) ++
    (graph.inputImports path).flatMap fun entry =>
      entry.2.1.getters.map (.getter entry.1 entry.2.2)

theorem exists_inputImport_iff (hgraph : graph.contracts.Named Contract.name)
    {contract : Contract} :
    (∃ entry ∈ graph.inputImports path, entry.2.1 = contract) ↔
      ∃ module ∈ graph.inputModules path, contract ∈ (graph.showing module).imports := by
  have hmem : contract ∈ ((graph.inputImports path).map fun entry => entry.2.1 :
      Multiset Contract) ↔ ∃ showing ∈ ((graph.inputModules path).map graph.showing :
        Multiset Showing), contract ∈ showing.imports := by
    rw [coe_inputImports hgraph, Multiset.mem_dedup, Multiset.mem_bind, inputShowings]
  simpa only [Multiset.mem_coe, List.mem_map, exists_exists_and_eq_and] using hmem

theorem refers_of_mem_media {module : Module} {medium : Medium} {key : Key}
    (hmedium : medium ∈ module.media graph) (hkey : key ∈ medium.keys graph) :
    (graph.showing module).Refers key := by
  rcases Module.mem_media.1 hmedium with ⟨point, hpoint, rfl⟩ | ⟨bound, hbound, rfl⟩ |
    ⟨⟨id, factory⟩, hfactory, rfl⟩ | ⟨⟨id, contract⟩, hcontract, rfl⟩
  · rw [Medium.keys_provisionPoint, List.mem_cons] at hkey
    obtain rfl | hkey := hkey
    · exact .point hpoint
    · obtain ⟨injectee, hinjectee, rfl⟩ := List.mem_map.1 hkey
      exact .injectee hpoint hinjectee
  · rw [Medium.keys_binding, List.mem_cons, List.mem_singleton] at hkey
    obtain rfl | rfl := hkey
    · exact .ancestor hbound
    · exact .implementation hbound
  · have hheld := Module.get?_of_mem_knownFactories hfactory
    rw [Medium.keys_factory hheld] at hkey
    obtain rfl := List.mem_singleton.1 hkey
    refine .factory (Multiset.mem_coe.2 ?_)
    rw [← module.map_snd_knownFactories graph]
    exact List.mem_map_of_mem hfactory
  · have hheld := Module.get?_of_mem_knownContracts hcontract
    rw [Medium.keys_contract hheld] at hkey
    obtain rfl := List.mem_singleton.1 hkey
    refine .contract (Multiset.mem_coe.2 ?_) (List.mem_cons_self ..)
    rw [← module.map_snd_knownContracts graph]
    exact List.mem_map_of_mem hcontract

theorem medium_or_contract_of_refers (hgraph : graph.contracts.Named Contract.name)
    {module : Module} (hmodule : module ∈ graph.inputModules path) {key : Key}
    (h : (graph.showing module).Refers key) :
    (∃ medium ∈ graph.media path, key ∈ medium.keys graph) ∨
      ∃ contract ∈ graph.hostedContracts module, key ∈ Plan.contractKeys contract := by
  have hsource : ∀ {medium}, medium ∈ module.media graph → key ∈ medium.keys graph →
      ∃ medium ∈ graph.media path, key ∈ medium.keys graph := fun hmedium hkey =>
    ⟨_, List.mem_append_left _ (List.mem_flatMap.2 ⟨module, hmodule, hmedium⟩), hkey⟩
  have hserved : ∀ {contract : Contract} {getter : Getter},
      contract ∈ (graph.showing module).imports → getter ∈ contract.getters →
      key ∈ [getter.injectee.key, contract.key] →
      ∃ medium ∈ graph.media path, key ∈ medium.keys graph := by
    intro contract getter himport hgetter hkey
    obtain ⟨entry, hentry, rfl⟩ := (exists_inputImport_iff hgraph).2 ⟨module, hmodule, himport⟩
    refine ⟨.getter entry.1 entry.2.2 getter, List.mem_append_right _ ?_, ?_⟩
    · exact List.mem_flatMap.2 ⟨entry, hentry, List.mem_map_of_mem hgetter⟩
    · rw [Medium.keys_getter (get?_of_mem_inputImports hentry)]
      exact hkey
  -- All that a module refers to is a key of some provider, but for the contracts that it hosts.
  cases h with
  | @point point h =>
      exact .inl (hsource (Module.mem_media.2 (.inl ⟨point, h, rfl⟩)) (List.mem_cons_self ..))
  | @injectee point injectee h hinjectee =>
      refine .inl (hsource (Module.mem_media.2 (.inl ⟨point, h, rfl⟩)) ?_)
      exact List.mem_cons_of_mem _ (List.mem_map_of_mem hinjectee)
  | @ancestor bound h =>
      refine .inl (hsource (Module.mem_media.2 (.inr (.inl ⟨bound, h, rfl⟩))) ?_)
      exact List.mem_cons_self ..
  | @implementation bound h =>
      refine .inl (hsource (Module.mem_media.2 (.inr (.inl ⟨bound, h, rfl⟩))) ?_)
      exact List.mem_cons_of_mem _ (List.mem_cons_self ..)
  | @factory factory h =>
      obtain ⟨entry, hentry, rfl⟩ : ∃ entry ∈ module.knownFactories graph, entry.2 = factory := by
        rw [← List.mem_map, module.map_snd_knownFactories graph]
        exact h
      refine .inl (hsource (Module.mem_media.2 (.inr (.inr (.inl ⟨entry, hentry, rfl⟩)))) ?_)
      rw [Medium.keys_factory (Module.get?_of_mem_knownFactories hentry)]
      exact List.mem_cons_self ..
  | @contract contract key h hkey => exact .inr ⟨contract, h, hkey⟩
  | imported h hgetter => exact .inl (hserved h hgetter (by simp))
  | getter h hgetter => exact .inl (hserved h hgetter (by simp))

theorem refers_iff (hgraph : graph.contracts.Named Contract.name) {key : Key} :
    (∃ module ∈ graph.inputModules path, (graph.showing module).Refers key) ↔
      (∃ medium ∈ graph.media path, key ∈ medium.keys graph) ∨
        ∃ module ∈ graph.inputModules path, ∃ contract ∈ graph.hostedContracts module,
          key ∈ Plan.contractKeys contract := by
  constructor
  · rintro ⟨module, hmodule, hrefers⟩
    exact (medium_or_contract_of_refers hgraph hmodule hrefers).imp id fun hcontract =>
      ⟨module, hmodule, hcontract⟩
  · rintro (⟨medium, hmedium, hkey⟩ | ⟨module, hmodule, contract, hcontract, hkey⟩)
    · rcases List.mem_append.1 hmedium with hmedium | hmedium
      · obtain ⟨module, hmodule, hmedium⟩ := List.mem_flatMap.1 hmedium
        exact ⟨module, hmodule, refers_of_mem_media hmedium hkey⟩
      · obtain ⟨⟨id, contract, lazy⟩, hentry, hmedium⟩ := List.mem_flatMap.1 hmedium
        obtain ⟨served, hserved, rfl⟩ := List.mem_map.1 hmedium
        obtain ⟨module, hmodule, himport⟩ :=
          (exists_inputImport_iff hgraph).1 ⟨_, hentry, rfl⟩
        rw [Medium.keys_getter (get?_of_mem_inputImports hentry), List.mem_cons,
          List.mem_singleton] at hkey
        obtain rfl | rfl := hkey
        · exact ⟨module, hmodule, .getter himport hserved⟩
        · exact ⟨module, hmodule, .imported himport hserved⟩
    · exact ⟨module, hmodule, .contract hcontract hkey⟩

end ObjectGraph

/-! ## The keys of a draft -/

def KeyAmong (showings : Multiset Showing) (factories : Multiset Factory) (key : Key) : Prop :=
  ∃ referred : Key, referred.boxed = key ∧ ((∃ showing ∈ showings, showing.Refers referred) ∨
    ∃ factory ∈ factories, referred ∈ Plan.factoryKeys factory)

def ObjectGraph.inputFactories (graph : ObjectGraph) (path : ClassPath) : Multiset Factory :=
  graph.factories.items.filter fun factory => path.isInput factory.name

namespace Plan

variable {entries : List (ClassName × List Provider) × List (ClassName × List Provider)}
  {project : String} {compiled : List ClassName} {assigned : Assignment}

theorem map_medium_values {α : Type} {nameOf : α → ClassName} {media : α → List Medium}
    {xs : List α} {entries : List (ClassName × List Provider)}
    (h : List.Forall₂ (fun x entry => entry.1 = nameOf x ∧
      entry.2.map Provider.medium = media x) xs entries) (hnodup : (xs.map nameOf).Nodup) :
    (Table.ofList entries).values.flatten.map Provider.medium = xs.flatMap media := by
  have hnames : entries.map Prod.fst = xs.map nameOf :=
    @Table.map_fst_of_forall₂ _ _ _ nameOf (fun x held => held.map Provider.medium = media x) _ _ h
  rw [← hnames] at hnodup
  rw [Table.values, Table.entries_ofList hnodup, ← List.flatMap_def, List.map_flatMap]
  clear hnodup hnames
  induction h with
  | nil => rfl
  | cons hhead _ ih => rw [List.flatMap_cons, List.flatMap_cons, hhead.2, ih]

theorem exists_medium_draft (hgraph : graph.WellFormed)
    (h : Ends (Assigning.ofRequests path graph) (.ofCompiled project compiled) entries assigned)
    (medium : Medium) :
    (∃ provider ∈ (draft path graph entries).providers, provider.medium = medium) ↔
      medium ∈ graph.media path := by
  simp only [Assigning.ofRequests, ends_bind, ends_pure] at h
  obtain ⟨moduleEntries, middle, hmodules, contractEntries, _, hcontracts, rfl, rfl⟩ := h
  have hsound := Assignment.sound_ofCompiled graph project compiled
  have hcomplete : (draft path graph (moduleEntries, contractEntries)).Complete path graph _ :=
    complete_of_entries hgraph hsound hmodules hcontracts rfl rfl rfl rfl
  obtain ⟨ledger, hrecords, hcovers⟩ :
      ∃ ledger, Ledger.Records project compiled graph (fun _ => False) ledger _ ∧
        ledger.Covers graph (draft path graph (moduleEntries, contractEntries)) :=
    exists_ledger_of_entries hmodules hcontracts rfl rfl
  obtain ⟨hmiddle, -, hserved⟩ := Assigning.moduleEntries_spec hgraph hsound hmodules
  obtain ⟨-, -, himported⟩ := Assigning.contractEntries_spec hgraph hmiddle hcontracts
  have hmoduleMedia := map_medium_values
    (hserved.imp fun _ _ hentry => ⟨hentry.1, Assignment.map_medium_of_serves hentry.2⟩)
    hgraph.nodup_inputModules
  have hcontractMedia := map_medium_values himported hgraph.nodup_inputImports
  simp only [mem_providers_iff hgraph hcomplete hrecords hcovers, exists_listed_iff]
  rw [← List.mem_map, List.map_append]
  exact iff_of_eq (congrArg (medium ∈ ·) (congrArg₂ (· ++ ·) hmoduleMedia hcontractMedia))

theorem mem_keys_draft (hgraph : graph.WellFormed)
    (h : Ends (Assigning.ofRequests path graph) (.ofCompiled project compiled) entries assigned)
    (key : Key) :
    key ∈ (draft path graph entries).keys graph ↔
      KeyAmong (graph.inputShowings path) (graph.inputFactories path) key := by
  have hproviders : ∀ referred,
      referred ∈ (draft path graph entries).providers.flatMap (providerKeys graph) ↔
        ∃ medium ∈ graph.media path, referred ∈ medium.keys graph := by
    intro referred
    simp only [List.mem_flatMap, ← exists_medium_draft hgraph h]
    constructor
    · exact fun ⟨provider, hmem, hkey⟩ => ⟨provider.medium, ⟨provider, hmem, rfl⟩, hkey⟩
    · rintro ⟨_, ⟨provider, hmem, rfl⟩, hkey⟩
      exact ⟨provider, hmem, hkey⟩
  have hcontracts : ∀ referred,
      referred ∈ ((draft path graph entries).contracts.filterMap graph.contracts.get?).flatMap
          contractKeys ↔
        ∃ module ∈ graph.inputModules path, ∃ contract ∈ graph.hostedContracts module,
          referred ∈ contractKeys contract := by
    intro referred
    simp only [List.mem_flatMap, draft, ObjectGraph.mem_inputContracts]
    constructor
    · rintro ⟨contract, ⟨module, hmodule, hcontract⟩, hkey⟩
      exact ⟨module, hmodule, contract, hcontract, hkey⟩
    · rintro ⟨module, hmodule, contract, hcontract, hkey⟩
      exact ⟨contract, ⟨module, hmodule, hcontract⟩, hkey⟩
  have hfactories : ∀ referred,
      referred ∈ ((draft path graph entries).factories.filterMap graph.factories.get?).flatMap
          factoryKeys ↔
        ∃ factory ∈ graph.inputFactories path, referred ∈ factoryKeys factory := by
    intro referred
    simp only [List.mem_flatMap, draft, ObjectGraph.mem_inputFactories, ObjectGraph.inputFactories,
      Multiset.mem_coe, List.mem_filter]
  rw [keys, collectKeys, mem_firsts_id, List.mem_map, KeyAmong]
  refine exists_congr fun referred => ?_
  rw [and_comm, List.mem_append, List.mem_append, hproviders, hcontracts, hfactories,
    ← ObjectGraph.refers_iff hgraph.contracts_named]
  simp only [ObjectGraph.inputShowings, Multiset.mem_coe, List.mem_map, exists_exists_and_eq_and]

end Plan

end InjectionCompiler
