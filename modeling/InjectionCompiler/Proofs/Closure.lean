import InjectionCompiler.Proofs.Artifacts
import InjectionCompiler.Proofs.Unit

/-!
# Emitted units are closed

Whatever an emitted unit names of the same run is emitted as well: the slots of the key registry,
the fields of package invaders, and the implementations of factories and contracts.
-/

namespace InjectionCompiler

/-! ## Closed lists of units -/

/-- The units of a plan refer to nothing of the run that is not among them. -/
structure Plan.Closed (path : ClassPath) (graph : ObjectGraph) (plan : Plan)
    (units : List GeneratedUnit) : Prop where
  /-- A reference by way of a registry stands for a key.  It names the registry that is emitted, and
  there exactly one entry, which is that of every key referred to in this way. -/
  registry : ∀ unit ∈ units, ∀ slot, .registry slot ∈ unit.references →
    (∃ key, plan.Resolves graph key ∧ plan.referTo key = .ok (.registry slot)) ∧
    ∃ registry, .registry registry ∈ units ∧ registry.name = slot.owner ∧
      ∀ key, plan.referTo key = .ok (.registry slot) →
        (registry.entries.filter fun entry => entry.field = slot.field) =
          [⟨slot.field, key.boxed.display, key.qualifier.isSome⟩]
  registry_unique : ∀ first second, .registry first ∈ units → .registry second ∈ units →
    first = second
  /-- A reference by way of an invader names one that is emitted, and there a field that holds
  exactly the class. -/
  invader : ∀ unit ∈ units, ∀ name field, .classLiteral name (some field) ∈ unit.references →
    ∃ invader, .invader invader ∈ units ∧ invader.name = field.owner ∧
      (invader.classes.filter fun held => held.2 = field.field) = [(name, field.field)]
  contract : ∀ unit implementation, .provider unit ∈ units →
    unit.source = .contract implementation →
      ∃ emitted, .contract emitted ∈ units ∧ emitted.name = implementation
  factory : ∀ unit implementation, .provider unit ∈ units → unit.source = .factory implementation →
    (∃ factory ∈ graph.factories.items, factory.implementation = implementation) ∧
    ∀ factory ∈ graph.factories.items, factory.implementation = implementation →
      path.isInput factory.name = true →
      ∃ emitted, .factory emitted ∈ units ∧ emitted.name = implementation ∧
        emitted.factory = factory.name

/-! ## Fields of the registry -/

theorem KeySlot.qualified_of_ofKey? {key : Key} {index : Nat} {slot : KeySlot}
    (h : ofKey? key index = some slot) : slot.qualified = key.qualifier.isSome := by
  unfold ofKey? at h
  dsimp only at h
  split at h
  · next hqualified =>
      cases h
      exact hqualified.symm
  · next hqualified =>
      split at h
      · cases h
        exact (Bool.not_eq_true _ ▸ hqualified).symm
      · cases h

theorem Plan.nodup_slotFields (keys : List Key) :
    ((slotEntries keys).map fun entry => entry.2.field).Nodup := by
  have hindices : (keys.zipIdx.map Prod.snd).Nodup := by
    rw [List.zipIdx_map_snd]
    exact List.nodup_range'
  rw [List.Nodup, List.pairwise_map] at hindices
  rw [List.Nodup, List.pairwise_map, slotEntries, List.pairwise_filterMap]
  refine hindices.imp ?_
  rintro ⟨a, i⟩ ⟨b, j⟩ hne first hfirst second hsecond hfield
  obtain ⟨x, hx, rfl⟩ := Option.map_eq_some_iff.1 hfirst
  obtain ⟨y, hy, rfl⟩ := Option.map_eq_some_iff.1 hsecond
  rw [KeySlot.field_of_ofKey? hx, KeySlot.field_of_ofKey? hy, String.append_right_inj] at hfield
  exact hne (toString_nat_injective hfield)

namespace Plan

variable {path : ClassPath} {graph : ObjectGraph} {plan : Plan} {assigned : Assignment}
  {before after : Assignment}

/-! ## What a unit is built from -/

theorem name_of_providerUnit {provider : Provider} {unit : GeneratedUnit}
    (h : plan.providerUnit graph provider = .ok unit) :
    ∃ built dependencies, unit = .provider built ∧ built.name = provider.name ∧
      plan.mediumSource graph provider.medium = .ok (built.source, dependencies) := by
  unfold providerUnit at h
  obtain ⟨⟨source, dependencies⟩, hsource, h⟩ := bind_eq_ok.1 h
  obtain ⟨key, -, h⟩ := bind_eq_ok.1 h
  obtain ⟨reference, -, h⟩ := bind_eq_ok.1 h
  cases h
  exact ⟨_, dependencies, rfl, rfl, hsource⟩

theorem name_of_factoryUnit {factory : Factory} {unit : GeneratedUnit}
    (h : plan.factoryUnit factory = .ok unit) :
    ∃ built, unit = .factory built ∧ built.name = factory.implementation ∧
      built.factory = factory.name := by
  unfold factoryUnit at h
  obtain ⟨methods, -, h⟩ := bind_eq_ok.1 h
  cases h
  exact ⟨_, rfl, rfl, rfl⟩

theorem name_of_contractUnit {contract : Contract} {unit : GeneratedUnit}
    (h : plan.contractUnit contract = .ok unit) :
    ∃ built, unit = .contract built ∧ built.name = contract.implementation := by
  unfold contractUnit at h
  obtain ⟨methods, -, h⟩ := bind_eq_ok.1 h
  cases h
  exact ⟨_, rfl, rfl⟩

def Emits (graph : ObjectGraph) (plan : Plan) : GeneratedUnit → Prop
  | .provider built => ∃ provider ∈ plan.providers,
      plan.providerUnit graph provider = .ok (.provider built)
  | .factory built => ∃ factory ∈ plan.factories.filterMap graph.factories.get?,
      plan.factoryUnit factory = .ok (.factory built)
  | .contract built => ∃ contract ∈ plan.contracts.filterMap graph.contracts.get?,
      plan.contractUnit contract = .ok (.contract built)
  | .invader built => ∃ invader ∈ plan.invaders, invaderUnit invader = .invader built
  | .registry built => registryUnit plan.registry = .registry built

theorem mem_units_iff {name : ClassName} {unit : GeneratedUnit} :
    (name, .ok unit) ∈ plan.units graph ↔ plan.Emits graph unit ∧ unit.name = name := by
  simp only [units, List.mem_append, List.mem_map, List.mem_singleton, Prod.mk.injEq]
  constructor
  · rintro ((((⟨provider, hprovider, rfl, hunit⟩ | ⟨factory, hfactory, rfl, hunit⟩) |
      ⟨contract, hcontract, rfl, hunit⟩) | ⟨invader, hinvader, rfl, hunit⟩) | ⟨rfl, hunit⟩)
    · obtain ⟨built, -, rfl, hname, -⟩ := name_of_providerUnit hunit
      exact ⟨⟨provider, hprovider, hunit⟩, hname⟩
    · obtain ⟨built, rfl, hname, -⟩ := name_of_factoryUnit hunit
      exact ⟨⟨factory, hfactory, hunit⟩, hname⟩
    · obtain ⟨built, rfl, hname⟩ := name_of_contractUnit hunit
      exact ⟨⟨contract, hcontract, hunit⟩, hname⟩
    · cases hunit
      exact ⟨⟨invader, hinvader, rfl⟩, rfl⟩
    · cases hunit
      exact ⟨rfl, rfl⟩
  · rintro ⟨hemits, rfl⟩
    cases unit with
    | provider built =>
        obtain ⟨provider, hprovider, hunit⟩ := hemits
        obtain ⟨_, -, heq, hname, -⟩ := name_of_providerUnit hunit
        cases heq
        exact .inl (.inl (.inl (.inl ⟨provider, hprovider, hname.symm, hunit⟩)))
    | factory built =>
        obtain ⟨factory, hfactory, hunit⟩ := hemits
        obtain ⟨_, heq, hname, -⟩ := name_of_factoryUnit hunit
        cases heq
        exact .inl (.inl (.inl (.inr ⟨factory, hfactory, hname.symm, hunit⟩)))
    | contract built =>
        obtain ⟨contract, hcontract, hunit⟩ := hemits
        obtain ⟨_, heq, hname⟩ := name_of_contractUnit hunit
        cases heq
        exact .inl (.inl (.inr ⟨contract, hcontract, hname.symm, hunit⟩))
    | invader built =>
        obtain ⟨invader, hinvader, heq⟩ := hemits
        cases heq
        exact .inl (.inr ⟨invader, hinvader, rfl, rfl⟩)
    | registry built =>
        cases hemits
        exact .inr ⟨rfl, rfl⟩

theorem exists_source_of_emits {built : ProviderUnit} (h : plan.Emits graph (.provider built)) :
    ∃ provider ∈ plan.providers, ∃ dependencies,
      plan.mediumSource graph provider.medium = .ok (built.source, dependencies) := by
  obtain ⟨provider, hprovider, hunit⟩ := h
  obtain ⟨_, dependencies, heq, -, hsource⟩ := name_of_providerUnit hunit
  cases heq
  exact ⟨provider, hprovider, dependencies, hsource⟩

/-! ## References -/

theorem eq_of_referTo_registry {key : Key} {slot : FieldReference}
    (h : plan.referTo key = .ok (.registry slot)) :
    ∃ held, plan.registry.find? key = some held ∧ slot = ⟨plan.registry.name, held.field⟩ := by
  unfold referTo at h
  split at h
  · next held hheld =>
      cases h
      exact ⟨held, hheld, rfl⟩
  · obtain ⟨name, -, h⟩ := bind_eq_ok.1 h
    cases h

theorem invader_of_referTo {key : Key} {name : ClassName} {invader : Option FieldReference}
    (h : plan.referTo key = .ok (.classLiteral name invader)) :
    invader = (plan.invaderField? name).map fun held => ⟨held.1.name, held.2⟩ := by
  unfold referTo at h
  split at h
  · cases h
  · obtain ⟨found, -, h⟩ := bind_eq_ok.1 h
    cases h
    rfl

theorem eq_of_referTo_invader {key : Key} {name : ClassName} {field : FieldReference}
    (h : plan.referTo key = .ok (.classLiteral name (some field))) :
    ∃ invader held, plan.invaderField? name = some (invader, held) ∧
      field = ⟨invader.name, held⟩ := by
  obtain ⟨⟨invader, held⟩, hheld, rfl⟩ := Option.map_eq_some_iff.1 (invader_of_referTo h).symm
  exact ⟨invader, held, hheld, rfl⟩

/-- What the unit of a provider makes its instances from. -/
inductive SourceOf (graph : ObjectGraph) : Medium → UnitSource → Prop where
  | provisionPoint (point : ProvisionPoint) :
      SourceOf graph (.provisionPoint point) (pointSource point)
  | binding (bound : Binding) (reference : KeyReference) :
      SourceOf graph (.binding bound) (.binding reference)
  | factory {id : Id .factory} {factory : Factory} (hget : graph.factories.get? id = some factory) :
      SourceOf graph (.factory id) (.factory factory.implementation)
  | contract {id : Id .contract} {contract : Contract}
      (hget : graph.contracts.get? id = some contract) :
      SourceOf graph (.contract id) (.contract contract.implementation)
  | getter (id : Id .contract) (lazy : Bool) (served : Getter) (reference : KeyReference) :
      SourceOf graph (.getter id lazy served) (.contractMethod reference served.method lazy)

theorem sourceOf_of_mediumSource {medium : Medium} {source : UnitSource}
    {dependencies : List DependencyReference}
    (h : plan.mediumSource graph medium = .ok (source, dependencies)) :
    SourceOf graph medium source := by
  unfold mediumSource at h
  cases medium with
  | provisionPoint point =>
      obtain ⟨_, -, h⟩ := bind_eq_ok.1 h
      cases h
      exact .provisionPoint point
  | binding bound =>
      obtain ⟨reference, -, h⟩ := bind_eq_ok.1 h
      cases h
      exact .binding bound reference
  | factory id =>
      obtain ⟨factory, hfactory, h⟩ := bind_eq_ok.1 h
      cases h
      unfold factoryOf at hfactory
      split at hfactory
      · next held hget =>
          cases hfactory
          exact .factory hget
      · cases hfactory
  | contract id =>
      obtain ⟨contract, hcontract, h⟩ := bind_eq_ok.1 h
      cases h
      unfold contractOf at hcontract
      split at hcontract
      · next held hget =>
          cases hcontract
          exact .contract hget
      · cases hcontract
  | getter id lazy served =>
      obtain ⟨contract, -, h⟩ := bind_eq_ok.1 h
      obtain ⟨reference, -, h⟩ := bind_eq_ok.1 h
      cases h
      exact .getter id lazy served reference

theorem exists_contract_of_source {medium : Medium} {implementation : ClassName}
    (h : SourceOf graph medium (.contract implementation)) :
    ∃ id contract, graph.contracts.get? id = some contract ∧
      contract.implementation = implementation ∧ medium = .contract id := by
  generalize heq : UnitSource.contract implementation = source at h
  cases h with
  | contract hget =>
      cases heq
      exact ⟨_, _, hget, rfl, rfl⟩
  | provisionPoint point =>
      unfold pointSource at heq
      split at heq <;> cases heq
  | binding | factory | getter => cases heq

theorem exists_factory_of_source {medium : Medium} {implementation : ClassName}
    (h : SourceOf graph medium (.factory implementation)) :
    ∃ id factory, graph.factories.get? id = some factory ∧
      factory.implementation = implementation ∧ medium = .factory id := by
  generalize heq : UnitSource.factory implementation = source at h
  cases h with
  | factory hget =>
      cases heq
      exact ⟨_, _, hget, rfl, rfl⟩
  | provisionPoint point =>
      unfold pointSource at heq
      split at heq <;> cases heq
  | binding | contract | getter => cases heq

theorem exists_units (hplan : plan.Complete path graph assigned) :
    ∃ units : List GeneratedUnit,
      plan.units graph = units.map fun unit => (unit.name, .ok unit) := by
  have hbuilt : ∀ entry ∈ plan.units graph, ∃ unit : GeneratedUnit,
      entry = (unit.name, .ok unit) := by
    rintro ⟨name, unit⟩ hentry
    obtain ⟨built, rfl, -⟩ := units_built hplan hentry
    exact ⟨built, by rw [(mem_units_iff.1 hentry).2]⟩
  generalize plan.units graph = entries at hbuilt
  induction entries with
  | nil => exact ⟨[], rfl⟩
  | cons entry entries ih =>
      obtain ⟨unit, rfl⟩ := hbuilt entry (List.mem_cons_self ..)
      obtain ⟨units, rfl⟩ := ih fun other hother => hbuilt other (List.mem_cons_of_mem _ hother)
      exact ⟨unit :: units, rfl⟩

theorem mem_iff_emits {units : List GeneratedUnit}
    (hunits : plan.units graph = units.map fun unit => (unit.name, .ok unit))
    {unit : GeneratedUnit} :
    unit ∈ units ↔ plan.Emits graph unit := by
  have hmem := @mem_units_iff graph plan unit.name unit
  rw [hunits, and_iff_left rfl] at hmem
  rw [← hmem]
  constructor
  · exact fun h => List.mem_map_of_mem h
  · intro h
    obtain ⟨other, hother, heq⟩ := List.mem_map.1 h
    exact Except.ok.inj (Prod.mk.inj heq).2 ▸ hother

/-! ## Closure -/

section

variable (hplan : plan.Complete path graph assigned)

include hplan

theorem nodup_registryFields :
    (plan.registry.slots.entries.map fun entry => entry.2.field).Nodup := by
  have hkeys : (plan.keys graph).Nodup := nodup_collectKeys ..
  rw [hplan.slots_eq, Table.entries_ofList (nodup_slotEntries hkeys)]
  exact nodup_slotFields _

theorem filter_registryEntries {key : Key} {slot : KeySlot}
    (h : plan.registry.find? key = some slot) :
    ((plan.registry.slots.entries.map fun (key, slot) =>
      (⟨slot.field, key.display, slot.qualified⟩ : RegistryEntry)).filter
        fun entry => entry.field = slot.field) =
      [⟨slot.field, key.boxed.display, key.qualifier.isSome⟩] := by
  have hentry := Table.mem_entries_of_find? h
  obtain ⟨index, -, hslot⟩ := (find?_registry_iff hplan).1 h
  have hqualified : slot.qualified = key.boxed.qualifier.isSome :=
    KeySlot.qualified_of_ofKey? hslot
  change _ = [(⟨slot.field, key.boxed.display, key.boxed.qualifier.isSome⟩ : RegistryEntry)]
  rw [← hqualified]
  have hmem := List.mem_map_of_mem (f := fun entry : Key × KeySlot =>
    (⟨entry.2.field, entry.1.display, entry.2.qualified⟩ : RegistryEntry)) hentry
  refine @filter_eq_singleton _ _ _ RegistryEntry.field _ ?_ _ hmem
  rw [List.map_map]
  exact nodup_registryFields hplan

variable {units : List GeneratedUnit}
  (hunits : plan.units graph = units.map fun unit => (unit.name, .ok unit))

include hunits

theorem refersTo_of_mem {unit : GeneratedUnit} (hunit : unit ∈ units) {reference : KeyReference}
    (hreference : reference ∈ unit.references) : plan.RefersTo graph reference := by
  have hmem : (unit.name, .ok unit) ∈ plan.units graph :=
    mem_units_iff.2 ⟨(mem_iff_emits hunits).1 hunit, rfl⟩
  obtain ⟨built, heq, hrefers⟩ := units_built hplan hmem
  cases heq
  exact hrefers reference hreference

theorem exists_factory_mem {factory : Factory}
    (h : factory ∈ plan.factories.filterMap graph.factories.get?) :
    ∃ built, .factory built ∈ units ∧ built.name = factory.implementation ∧
      built.factory = factory.name := by
  have hmem : (factory.implementation, plan.factoryUnit factory) ∈ plan.units graph := by
    simp only [Plan.units, List.mem_append]
    exact .inl (.inl (.inl (.inr (List.mem_map_of_mem h))))
  obtain ⟨unit, hunit, -⟩ := units_built hplan hmem
  obtain ⟨built, rfl, hname, hfactory⟩ := name_of_factoryUnit hunit
  exact ⟨built, (mem_iff_emits hunits).2 ⟨factory, h, hunit⟩, hname, hfactory⟩

theorem exists_contract_mem {contract : Contract}
    (h : contract ∈ plan.contracts.filterMap graph.contracts.get?) :
    ∃ built, .contract built ∈ units ∧ built.name = contract.implementation := by
  have hmem : (contract.implementation, plan.contractUnit contract) ∈ plan.units graph := by
    simp only [Plan.units, List.mem_append]
    exact .inl (.inl (.inr (List.mem_map_of_mem h)))
  obtain ⟨unit, hunit, -⟩ := units_built hplan hmem
  obtain ⟨built, rfl, hname⟩ := name_of_contractUnit hunit
  exact ⟨built, (mem_iff_emits hunits).2 ⟨contract, h, hunit⟩, hname⟩

omit hplan hunits in
theorem MediumAt.exists_host {place : Listing} {id : Id .contract}
    (h : MediumAt path graph place (.contract id)) :
    ∃ module ∈ graph.inputModules path, ∃ contract ∈ graph.hostedContracts module,
      graph.contracts.get? id = some contract := by
  cases h with
  | source hmodule hmedium =>
      rcases Module.mem_media.1 hmedium with
        ⟨_, -, heq⟩ | ⟨_, -, heq⟩ | ⟨_, -, heq⟩ | ⟨entry, hentry, heq⟩ <;> cases heq
      refine ⟨_, hmodule, entry.2, ?_, Module.get?_of_mem_knownContracts hentry⟩
      rw [← Module.map_snd_knownContracts]
      exact List.mem_map_of_mem hentry

theorem closed_of_units {project : String} {compiled : List ClassName}
    (hends : Ends (Assigning.composePlan path graph) (.ofCompiled project compiled) plan after) :
    plan.Closed path graph units := by
  obtain ⟨_, _, _, _, _, -, -, -, -, -, -, -, hinvaders, -⟩ :=
    Assigning.exists_steps_of_composePlan hends
  constructor
  case registry =>
    intro unit hunit slot hslot
    obtain ⟨key, hkey, hrefer⟩ := refersTo_of_mem hplan hunits hunit hslot
    have hregistry : registryUnit plan.registry ∈ units := (mem_iff_emits hunits).2 rfl
    refine ⟨⟨key, hkey, hrefer⟩, _, hregistry, ?_, ?_⟩
    · obtain ⟨held, -, rfl⟩ := eq_of_referTo_registry hrefer
      rfl
    · intro other hother
      obtain ⟨held, hheld, rfl⟩ := eq_of_referTo_registry hother
      exact filter_registryEntries hplan hheld
  case registry_unique =>
    intro first second hfirst hsecond
    have hfirst : registryUnit plan.registry = .registry first := (mem_iff_emits hunits).1 hfirst
    have hsecond : registryUnit plan.registry = .registry second :=
      (mem_iff_emits hunits).1 hsecond
    exact GeneratedUnit.registry.inj (hfirst.symm.trans hsecond)
  case invader =>
    intro unit hunit name field hfield
    obtain ⟨key, hkey, hrefer⟩ := refersTo_of_mem hplan hunits hunit hfield
    obtain ⟨invader, held, hheld, rfl⟩ := eq_of_referTo_invader hrefer
    obtain ⟨hinvader, -, hfilter⟩ := field_of_invaderField? hinvaders hheld
    exact ⟨_, (mem_iff_emits hunits).2 ⟨invader, hinvader, rfl⟩, rfl, hfilter⟩
  case contract =>
    intro unit implementation hunit hsource
    -- A unit with such a source was built from a provider, and the place where the plan lists the
    -- provider tells which module hosts the contract.
    obtain ⟨provider, hprovider, dependencies, hmedium⟩ :=
      exists_source_of_emits ((mem_iff_emits hunits).1 hunit)
    obtain ⟨place, hplace⟩ := exists_listed_of_mem hends hprovider
    have hat := mediumAt_of_listed hplan hplace
    rw [hsource] at hmedium
    obtain ⟨id, contract, hget, himplementation, hcontract⟩ :=
      exists_contract_of_source (sourceOf_of_mediumSource hmedium)
    rw [hcontract] at hat
    obtain ⟨module, hmodule, hosted, hhosted, hheld⟩ := hat.exists_host
    cases hget.symm.trans hheld
    rw [← himplementation]
    exact exists_contract_mem hplan hunits ((mem_contracts_iff hends).2 ⟨module, hmodule, hhosted⟩)
  case factory =>
    intro unit implementation hunit hsource
    obtain ⟨provider, hprovider, dependencies, hmedium⟩ :=
      exists_source_of_emits ((mem_iff_emits hunits).1 hunit)
    rw [hsource] at hmedium
    obtain ⟨id, factory, hget, himplementation, -⟩ :=
      exists_factory_of_source (sourceOf_of_mediumSource hmedium)
    refine ⟨⟨factory, Arena.mem_items_of_get? hget, himplementation⟩, ?_⟩
    rintro other hitem rfl hinput
    exact exists_factory_mem hplan hunits ((mem_factories_iff hends).2 ⟨hitem, hinput⟩)

end

end Plan

end InjectionCompiler
