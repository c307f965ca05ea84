import InjectionCompiler.Proofs.Helpers
import InjectionCompiler.Proofs.Roster

/-!
# The names of artifacts

Providers and helpers get their names from the supply, and implementations are named after their
interfaces.  No two units of a plan bear one name, and only an implementation can bear the name of a
class that was compiled before.
-/

namespace InjectionCompiler

/-! ## Names of stored entities -/

namespace Arena

variable {entity : Entity} {α : Type} {arena : Arena entity α}

theorem Named.nodup_names {nameOf : α → ClassName} (h : arena.Named nameOf)
    {ids : List (Id entity)} (hids : ids.Nodup) :
    ((ids.filterMap arena.get?).map nameOf).Nodup := by
  rw [List.Nodup, List.pairwise_map, List.pairwise_filterMap]
  refine hids.imp ?_
  intro a b hne x hx y hy hname
  exact hne (h.id_unique hx hy hname)

theorem nodup_ids (arena : Arena entity α) : arena.ids.Nodup := by
  refine List.Nodup.map (fun a b heq => ?_) List.nodup_range
  exact Id.mk.inj heq

end Arena

variable {path : ClassPath} {graph : ObjectGraph} {plan : Plan} {project : String}
  {compiled : List ClassName} {after : Assignment}

/-- The name belongs to an implementation that is generated for the current input: that of one of
its factories, or that of a contract which one of its modules hosts. -/
def ObjectGraph.Implements (graph : ObjectGraph) (path : ClassPath) (project : String)
    (name : ClassName) : Prop :=
  (∃ factory ∈ graph.factories.items, path.isInput factory.name = true ∧
    factoryImplementation factory.name = name) ∨
  ∃ module ∈ graph.inputModules path, ∃ contract ∈ graph.hostedContracts module,
    contractImplementation contract.name project = name

theorem ObjectGraph.mem_inputFactories {path : ClassPath} {graph : ObjectGraph}
    {factory : Factory} :
    factory ∈ ((graph.factories.entries.filter fun (_, factory) =>
        path.isInput factory.name).map Prod.fst).filterMap graph.factories.get? ↔
      factory ∈ graph.factories.items ∧ path.isInput factory.name = true := by
  rw [List.mem_filterMap]
  constructor
  · rintro ⟨id, hid, hget⟩
    obtain ⟨⟨other, held⟩, hentry, rfl⟩ := List.mem_map.1 hid
    obtain ⟨hentry, hinput⟩ := List.mem_filter.1 hentry
    cases (Arena.get?_of_mem_entries hentry).symm.trans hget
    exact ⟨Arena.mem_items_of_get? hget, hinput⟩
  · rintro ⟨hitem, hinput⟩
    obtain ⟨id, hget⟩ := Arena.exists_get?_of_mem hitem
    refine ⟨id, List.mem_map.2 ⟨(id, factory), List.mem_filter.2 ⟨?_, hinput⟩, rfl⟩, hget⟩
    exact Arena.mem_entries_of_get? hget

namespace Plan

/-! ## Supplied names -/

def suppliedNames (plan : Plan) : List ClassName :=
  plan.providers.map Provider.name ++
    (plan.invaders.map PackageInvader.name ++ [plan.registry.name])

def implementationNames (graph : ObjectGraph) (plan : Plan) : List ClassName :=
  (plan.factories.filterMap graph.factories.get?).map Factory.implementation ++
    (plan.contracts.filterMap graph.contracts.get?).map Contract.implementation

theorem map_fst_units_perm :
    ((plan.units graph).map Prod.fst).Perm
      (plan.suppliedNames ++ plan.implementationNames graph) := by
  have hunits : (plan.units graph).map Prod.fst = plan.providers.map Provider.name ++
      (plan.implementationNames graph ++
        (plan.invaders.map PackageInvader.name ++ [plan.registry.name])) := by
    simp only [units, implementationNames, List.map_append, List.map_map, Function.comp_def,
      List.map_cons, List.map_nil, List.append_assoc]
  rw [hunits, suppliedNames, List.append_assoc]
  exact List.perm_append_comm.append_left _

theorem hasLongTag_of_namedFor (hproject : '$' ∉ project.toList) {name : ClassName}
    {provision : Provision} (h : Ledger.NamedFor project compiled name provision) :
    name.HasLongTag := by
  obtain ⟨-, owner, index, -, rfl⟩ := h
  have hkind : '$' ∉ provision.kind.toList ∧ 8 < provision.kind.length := by
    cases provision <;> (simp only [Provision.kind]; decide)
  exact ClassName.hasLongTag_candidate hkind.1 hkind.2 hproject index

section

variable (hends : Ends (Assigning.composePlan path graph) (.ofCompiled project compiled) plan after)

include hends

theorem lists_eq : plan.providers = firsts Provider.name
      (plan.byModule.values.flatten ++ plan.byContract.values.flatten) ∧
    plan.factories = (graph.factories.entries.filter fun (_, factory) =>
      path.isInput factory.name).map Prod.fst ∧
    plan.contracts = firsts id ((graph.inputModules path).flatMap Module.contracts) := by
  obtain ⟨_, _, _, _, _, -, -, -, -, hproviders, hcontracts, hfactories, -⟩ :=
    Assigning.exists_steps_of_composePlan hends
  exact ⟨hproviders, hfactories, hcontracts⟩

theorem exists_listed_of_mem {provider : Provider} (h : provider ∈ plan.providers) :
    ∃ place, plan.listed? place = some provider := by
  rw [(lists_eq hends).1] at h
  exact exists_listed_iff.2 (mem_of_mem_firstsFrom h).1

theorem nodup_providerNames : (plan.providers.map Provider.name).Nodup := by
  rw [(lists_eq hends).1]
  exact nodup_map_firstsFrom Provider.name [] _

theorem suppliedNames_spec : plan.suppliedNames.Nodup ∧
    (∀ name ∈ plan.suppliedNames, name ∉ compiled) ∧
    ('$' ∉ project.toList → ∀ name ∈ plan.suppliedNames, name.HasLongTag) := by
  obtain ⟨ledger, assigned, named, hrecords, hcovers, hinvaders, hregistry⟩ := exists_ledger hends
  obtain ⟨hinvaderNames, hproject, hinvades⟩ := Assigning.composeInvaders_spec hinvaders
  obtain ⟨hregistryName, hregistryTag⟩ := Assigning.composeRegistry_spec hregistry
  have hhelpers := hinvaderNames.append hregistryName
  have hentered : ∀ name ∈ plan.providers.map Provider.name,
      ∃ provision, (name, provision) ∈ ledger := by
    intro name hname
    obtain ⟨provider, hprovider, rfl⟩ := List.mem_map.1 hname
    obtain ⟨place, hplace⟩ := exists_listed_of_mem hends hprovider
    obtain ⟨provision, hprovision, -⟩ := hcovers place provider hplace
    exact ⟨provision, hprovision⟩
  -- Helpers get their names after all providers, so theirs are in front of those of the ledger.
  have hgenerated := hhelpers.generated_eq
  have hnodup := hhelpers.nodup_generated (hrecords.generated_eq ▸ hrecords.names_nodup)
  rw [hgenerated, List.nodup_append, List.nodup_reverse, hrecords.generated_eq] at hnodup
  obtain ⟨hhelpersNodup, -, hdisjoint⟩ := hnodup
  refine ⟨List.nodup_append.2 ⟨nodup_providerNames hends, hhelpersNodup, ?_⟩, ?_, ?_⟩
  · intro name hname helper hhelper heq
    obtain ⟨provision, hprovision⟩ := hentered name hname
    refine hdisjoint helper (List.mem_reverse.2 hhelper) name ?_ heq.symm
    exact List.mem_map_of_mem hprovision
  · intro name hname
    rcases List.mem_append.1 hname with hname | hname
    · obtain ⟨provision, hprovision⟩ := hentered name hname
      exact (hrecords.named name provision hprovision).1
    · rw [← hrecords.compiled_eq]
      exact hhelpers.not_compiled name hname
  · intro hseparate name hname
    rw [hproject, hrecords.project_eq] at hregistryTag
    rw [hrecords.project_eq] at hinvades
    rcases List.mem_append.1 hname with hname | hname
    · obtain ⟨provision, hprovision⟩ := hentered name hname
      exact hasLongTag_of_namedFor hseparate (hrecords.named name provision hprovision)
    · rcases List.mem_append.1 hname with hname | hname
      · obtain ⟨invader, hinvader, rfl⟩ := List.mem_map.1 hname
        obtain ⟨_, -, -, htag⟩ := exists_left_of_forall₂ hinvades hinvader
        exact htag hseparate
      · obtain rfl := List.mem_singleton.1 hname
        exact hregistryTag hseparate

/-! ## Names of implementations -/

theorem mem_factories_iff {factory : Factory} :
    factory ∈ plan.factories.filterMap graph.factories.get? ↔
      factory ∈ graph.factories.items ∧ path.isInput factory.name = true := by
  rw [(lists_eq hends).2.1]
  exact ObjectGraph.mem_inputFactories

theorem mem_contracts_iff {contract : Contract} :
    contract ∈ plan.contracts.filterMap graph.contracts.get? ↔
      ∃ module ∈ graph.inputModules path, contract ∈ graph.hostedContracts module := by
  rw [(lists_eq hends).2.2]
  exact ObjectGraph.mem_inputContracts

theorem nodup_factories : plan.factories.Nodup := by
  rw [(lists_eq hends).2.1]
  refine List.Nodup.sublist (List.filter_sublist.map _) ?_
  rw [Arena.map_fst_entries]
  exact Arena.nodup_ids _

theorem nodup_contracts : plan.contracts.Nodup := by
  rw [(lists_eq hends).2.2]
  exact nodup_firsts_id _

variable (hgrounded : graph.Grounded project)

include hgrounded

theorem implementationNames_eq : plan.implementationNames graph =
    ((plan.factories.filterMap graph.factories.get?).map Factory.name).map factoryImplementation ++
      ((plan.contracts.filterMap graph.contracts.get?).map Contract.name).map
        (contractImplementation · project) := by
  have hfactories : ∀ factory ∈ plan.factories.filterMap graph.factories.get?,
      factory.implementation = factoryImplementation factory.name := by
    intro factory hfactory
    exact hgrounded.factory_implementations factory ((mem_factories_iff hends).1 hfactory).1
  have hcontracts : ∀ contract ∈ plan.contracts.filterMap graph.contracts.get?,
      contract.implementation = contractImplementation contract.name project := by
    intro contract hcontract
    obtain ⟨id, -, hget⟩ := List.mem_filterMap.1 hcontract
    exact hgrounded.contract_implementations contract (Arena.mem_items_of_get? hget)
  rw [implementationNames, List.map_congr_left hfactories, List.map_congr_left hcontracts,
    List.map_map, List.map_map]
  rfl

theorem nodup_implementationNames (hgraph : graph.WellFormed) (hproject : '$' ∉ project.toList) :
    (plan.implementationNames graph).Nodup := by
  rw [implementationNames_eq hends hgrounded]
  refine List.nodup_append.2 ⟨?_, ?_, ?_⟩
  · exact (hgraph.factories_named.nodup_names (nodup_factories hends)).map
      fun _ _ => factoryImplementation_injective
  · exact (hgraph.contracts_named.nodup_names (nodup_contracts hends)).map
      fun _ _ => contractImplementation_injective
  · intro a ha b hb
    obtain ⟨factory, -, rfl⟩ := List.mem_map.1 ha
    obtain ⟨contract, -, rfl⟩ := List.mem_map.1 hb
    exact factoryImplementation_ne_contractImplementation hproject factory contract

theorem not_hasLongTag_of_mem (hproject : '$' ∉ project.toList) {name : ClassName}
    (h : name ∈ plan.implementationNames graph) : ¬ name.HasLongTag := by
  rw [implementationNames_eq hends hgrounded] at h
  rcases List.mem_append.1 h with h | h
  · obtain ⟨factory, -, rfl⟩ := List.mem_map.1 h
    exact not_hasLongTag_factoryImplementation factory
  · obtain ⟨contract, -, rfl⟩ := List.mem_map.1 h
    exact not_hasLongTag_contractImplementation hproject contract

/-! ## Names of units -/

theorem nodup_units (hgraph : graph.WellFormed) (hproject : '$' ∉ project.toList) :
    ((plan.units graph).map Prod.fst).Nodup := by
  obtain ⟨hsupplied, -, htags⟩ := suppliedNames_spec hends
  rw [map_fst_units_perm.nodup_iff]
  refine List.nodup_append.2 ⟨hsupplied, ?_, ?_⟩
  · exact nodup_implementationNames hends hgrounded hgraph hproject
  · rintro name hname _ hother rfl
    exact not_hasLongTag_of_mem hends hgrounded hproject hother (htags hproject name hname)

theorem mem_unitNames_iff {name : ClassName} (hcompiled : name ∈ compiled) :
    name ∈ (plan.units graph).map Prod.fst ↔ graph.Implements path project name := by
  obtain ⟨-, hsupplied, -⟩ := suppliedNames_spec hends
  have hnot : name ∉ plan.suppliedNames := fun h => hsupplied name h hcompiled
  rw [map_fst_units_perm.mem_iff, List.mem_append, or_iff_right hnot,
    implementationNames_eq hends hgrounded, List.mem_append, ObjectGraph.Implements]
  refine or_congr ?_ ?_
  · simp only [List.map_map, List.mem_map, mem_factories_iff hends, Function.comp_apply, and_assoc]
  · simp only [List.map_map, List.mem_map, mem_contracts_iff hends, Function.comp_apply]
    constructor
    · rintro ⟨contract, ⟨module, hmodule, hcontract⟩, hname⟩
      exact ⟨module, hmodule, contract, hcontract, hname⟩
    · rintro ⟨module, hmodule, contract, hcontract, hname⟩
      exact ⟨contract, ⟨module, hmodule, hcontract⟩, hname⟩

end

end Plan

end InjectionCompiler
