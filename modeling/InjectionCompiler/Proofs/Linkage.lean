import InjectionCompiler.Proofs.Unit
import InjectionCompiler.Proofs.Validity

/-!
# Every dependency is served

The places that validation counts and the providers that are generated are the same: each place
of a container stands for one provider, and each provider stands at one place.  So where no fault is
found, a key that generated code depends on has exactly one provider.
-/

namespace InjectionCompiler

open Wiring

/-- The references by which the code of a unit asks the injector. -/
def GeneratedUnit.dependencies : GeneratedUnit → List KeyReference
  | .provider unit => unit.dependencies.map DependencyReference.key
  | .factory unit =>
      unit.methods.flatMap fun method => method.arguments.filterMap UnitArgument.reference?
  | .contract unit => unit.methods.map fun method => method.dependency.key
  | .invader _ => []
  | .registry _ => []

namespace Plan

/-! ## The providers of a container -/

/-- The providers of the effective modules of a container and of the contracts that these import. -/
inductive Supplies (graph : ObjectGraph) (plan : Plan) (root : Id .module) : Provider → Prop where
  | ofModule {id : Id .module} {module : Module} {providers : List Provider} {provider : Provider}
      (hmodule : graph.Effective root id module)
      (hfind : plan.byModule.find? module.name = some providers)
      (hprovider : provider ∈ providers) : Supplies graph plan root provider
  | ofImport {id : Id .module} {module : Module} {imported : Id .contract} {contract : Contract}
      {site : ImportSite} {lazy : Bool} {providers : List Provider} {provider : Provider}
      (hmodule : graph.Effective root id module)
      (himport : .contract imported site lazy ∈ module.imports)
      (hcontract : graph.contracts.get? imported = some contract)
      (hfind : plan.byContract.find? contract.name = some providers)
      (hprovider : provider ∈ providers) : Supplies graph plan root provider

/-- The keys that code generated for a container gets from the injector. -/
inductive Needs (graph : ObjectGraph) (plan : Plan) (root : Id .module) : Key → Prop where
  | dependency {provider : Provider} {key : Key} (hprovider : plan.Supplies graph root provider)
      (hkey : key ∈ provider.medium.dependencyKeys graph) : Needs graph plan root key
  | argument {id : Id .module} {module : Module} {factory : Factory} {method : FactoryMethod}
      {dependency : Dependency} (hmodule : graph.Effective root id module)
      (hfactory : factory ∈ graph.hostedFactories module) (hmethod : method ∈ factory.methods)
      (hargument : .injected dependency ∈ method.arguments) :
      Needs graph plan root dependency.key
  | getter {id : Id .module} {module : Module} {contract : Contract} {getter : Getter}
      (hmodule : graph.Effective root id module)
      (hcontract : contract ∈ graph.hostedContracts module) (hgetter : getter ∈ contract.getters) :
      Needs graph plan root getter.injectee.key

/-- The key of a contract that some effective module imports. -/
def ImportsKey (graph : ObjectGraph) (root : Id .module) (key : Key) : Prop :=
  ∃ id module imported site lazy contract, graph.Effective root id module ∧
    .contract imported site lazy ∈ module.imports ∧
    graph.contracts.get? imported = some contract ∧ contract.key.boxed = key

/-- A needed key is that of the injector, that of an imported contract, or that of exactly one
provider of the container. -/
def Served (graph : ObjectGraph) (plan : Plan) (root : Id .module) (key : Key) : Prop :=
  key.boxed = (Key.ofClass Vocabulary.injector).boxed ∨ ImportsKey graph root key.boxed ∨
    ∃! provider, plan.Supplies graph root provider ∧
      ∃ own, provider.key? graph = some own ∧ own.boxed = key.boxed

/-- The units of the providers, hosted factories and hosted contracts of a container. -/
inductive Generates (graph : ObjectGraph) (plan : Plan) (root : Id .module) :
    GeneratedUnit → Prop where
  | provider {provider : Provider} {unit : GeneratedUnit}
      (hprovider : plan.Supplies graph root provider)
      (hunit : plan.providerUnit graph provider = .ok unit) : Generates graph plan root unit
  | factory {id : Id .module} {module : Module} {factory : Factory} {unit : GeneratedUnit}
      (hmodule : graph.Effective root id module) (hfactory : factory ∈ graph.hostedFactories module)
      (hunit : plan.factoryUnit factory = .ok unit) : Generates graph plan root unit
  | contract {id : Id .module} {module : Module} {contract : Contract} {unit : GeneratedUnit}
      (hmodule : graph.Effective root id module)
      (hcontract : contract ∈ graph.hostedContracts module)
      (hunit : plan.contractUnit contract = .ok unit) : Generates graph plan root unit

/-- The providers of a container are generated, what the units refer to is needed, and whatever is
needed is served. -/
structure Linked (graph : ObjectGraph) (plan : Plan) (root : Id .module) : Prop where
  generated : ∀ provider, plan.Supplies graph root provider →
    provider.name ∈ plan.providers.map Provider.name
  needed : ∀ unit, plan.Generates graph root unit → ∀ reference ∈ unit.dependencies,
    ∃ key, plan.Needs graph root key ∧ plan.referTo key = .ok reference
  served : ∀ key, plan.Needs graph root key → plan.Served graph root key

/-! ## Places and providers -/

/-- The place of the source that stands at `index` among the sources of a module. -/
def placeAt (graph : ObjectGraph) (id : Id .module) (module : Module) (index : Nat) :
    Medium → Place
  | .provisionPoint _ => .provisionPoint id index
  | .binding bound => .declaredBinding bound
  | .factory _ =>
      .hostedFactory id (index - (module.provisionPoints.length + module.bindings.length))
  | .contract _ =>
      .hostedContract id (index - (module.provisionPoints.length + module.bindings.length +
        (module.knownFactories graph).length))
  | .getter imported _ _ => .importedGetter imported index

/-- The provider is made for the source at the place. -/
inductive Stands (graph : ObjectGraph) (plan : Plan) (root : Id .module) :
    Place → Provider → Prop where
  | ofModule {id : Id .module} {module : Module} {providers : List Provider} {provider : Provider}
      {index : Nat} {medium : Medium} (hmodule : graph.Effective root id module)
      (hfind : plan.byModule.find? module.name = some providers)
      (hmedium : (module.media graph)[index]? = some medium)
      (hprovider : providers[index]? = some provider) :
      Stands graph plan root (placeAt graph id module index medium) provider
  | ofImport {id : Id .module} {module : Module} {imported : Id .contract} {contract : Contract}
      {site : ImportSite} {lazy : Bool} {providers : List Provider} {provider : Provider}
      {index : Nat} {getter : Getter} (hmodule : graph.Effective root id module)
      (himport : .contract imported site lazy ∈ module.imports)
      (hcontract : graph.contracts.get? imported = some contract)
      (hfind : plan.byContract.find? contract.name = some providers)
      (hgetter : contract.getters[index]? = some getter)
      (hprovider : providers[index]? = some provider) :
      Stands graph plan root (.importedGetter imported index) provider

variable {path : ClassPath} {graph : ObjectGraph} {plan : Plan} {assigned : Assignment}
  {root : Id .module}

theorem exists_media_of_factory {module : Module} {factory : Factory}
    (h : factory ∈ graph.hostedFactories module) :
    ∃ id, graph.factories.get? id = some factory ∧ .factory id ∈ module.media graph := by
  rw [← Module.map_snd_knownFactories] at h
  obtain ⟨entry, hentry, rfl⟩ := List.mem_map.1 h
  exact ⟨entry.1, Module.get?_of_mem_knownFactories hentry,
    Module.mem_media.2 (.inr (.inr (.inl ⟨entry, hentry, rfl⟩)))⟩

theorem exists_media_of_contract {module : Module} {contract : Contract}
    (h : contract ∈ graph.hostedContracts module) :
    ∃ id, graph.contracts.get? id = some contract ∧ .contract id ∈ module.media graph := by
  rw [← Module.map_snd_knownContracts] at h
  obtain ⟨entry, hentry, rfl⟩ := List.mem_map.1 h
  exact ⟨entry.1, Module.get?_of_mem_knownContracts hentry,
    Module.mem_media.2 (.inr (.inr (.inr ⟨entry, hentry, rfl⟩)))⟩

/-- The source that stands at an index of a module. -/
inductive SourceAt (graph : ObjectGraph) (module : Module) : Nat → Medium → Prop where
  | provisionPoint {index : Nat} {point : ProvisionPoint}
      (hpoint : module.provisionPoints[index]? = some point) :
      SourceAt graph module index (.provisionPoint point)
  | binding {index : Nat} {bound : Binding} (hbinding : bound ∈ module.bindings) :
      SourceAt graph module index (.binding bound)
  | factory {place : Nat} {entry : Id .factory × Factory}
      (hfactory : (module.knownFactories graph)[place]? = some entry) :
      SourceAt graph module (module.provisionPoints.length + module.bindings.length + place)
        (.factory entry.1)
  | contract {place : Nat} {entry : Id .contract × Contract}
      (hcontract : (module.knownContracts graph)[place]? = some entry) :
      SourceAt graph module (module.provisionPoints.length + module.bindings.length +
        (module.knownFactories graph).length + place) (.contract entry.1)

theorem sourceAt_of_media {module : Module} {index : Nat} {medium : Medium}
    (h : (module.media graph)[index]? = some medium) : SourceAt graph module index medium := by
  simp only [Module.media, List.getElem?_append, List.length_append, List.length_map,
    List.getElem?_map] at h
  split at h
  · split at h
    · split at h
      · obtain ⟨point, hpoint, rfl⟩ := Option.map_eq_some_iff.1 h
        exact .provisionPoint hpoint
      · obtain ⟨bound, hbound, rfl⟩ := Option.map_eq_some_iff.1 h
        exact .binding (List.mem_of_getElem? hbound)
    · next hindex =>
        obtain ⟨entry, hentry, rfl⟩ := Option.map_eq_some_iff.1 h
        have hsum : module.provisionPoints.length + module.bindings.length +
            (index - (module.provisionPoints.length + module.bindings.length)) = index := by
          omega
        rw [← hsum]
        exact .factory hentry
  · next hindex =>
      obtain ⟨entry, hentry, rfl⟩ := Option.map_eq_some_iff.1 h
      have hsum : module.provisionPoints.length + module.bindings.length +
          (module.knownFactories graph).length + (index - (module.provisionPoints.length +
            module.bindings.length + (module.knownFactories graph).length)) = index := by
        omega
      rw [← hsum]
      exact .contract hentry

theorem index_eq_of_placeAt_eq {id id' : Id .module} {module module' : Module} {index index' : Nat}
    {medium medium' : Medium} (h : SourceAt graph module index medium)
    (h' : SourceAt graph module' index' medium') (hmodule : id = id' → module = module')
    (heq : placeAt graph id module index medium = placeAt graph id' module' index' medium') :
    (∃ bound, medium = .binding bound ∧ medium' = .binding bound) ∨
      (id = id' ∧ index = index') := by
  cases h <;> cases h' <;> simp only [placeAt, Nat.add_sub_cancel_left, reduceCtorEq,
    Place.provisionPoint.injEq, Place.declaredBinding.injEq, Place.hostedFactory.injEq,
    Place.hostedContract.injEq] at heq
  case provisionPoint.provisionPoint => exact .inr heq
  case binding.binding => exact .inl ⟨_, rfl, by rw [heq]⟩
  case factory.factory =>
    obtain ⟨rfl, rfl⟩ := heq
    rw [hmodule rfl]
    exact .inr ⟨rfl, rfl⟩
  case contract.contract =>
    obtain ⟨rfl, rfl⟩ := heq
    rw [hmodule rfl]
    exact .inr ⟨rfl, rfl⟩

theorem placeAt_ne_importedGetter {id : Id .module} {module : Module} {index place : Nat}
    {medium : Medium} {imported : Id .contract} (h : SourceAt graph module index medium) :
    placeAt graph id module index medium ≠ .importedGetter imported place := by
  cases h <;> simp [placeAt]

section

variable (hplan : plan.Complete path graph assigned)
  (hinput : ∀ id module, graph.Effective root id module → path.isInput module.name = true)

include hinput

theorem mem_inputModules_of_effective {id : Id .module} {module : Module}
    (hmodule : graph.Effective root id module) : module ∈ graph.inputModules path :=
  ObjectGraph.mem_inputModules.2 ⟨Arena.mem_items_of_get? hmodule.2, hinput id module hmodule⟩

include hplan

theorem forall₂_serves {id : Id .module} {module : Module} {providers : List Provider}
    (hmodule : graph.Effective root id module)
    (hfind : plan.byModule.find? module.name = some providers) :
    List.Forall₂ assigned.Serves (module.media graph) providers := by
  have hmem := mem_inputModules_of_effective hinput hmodule
  obtain ⟨others, hothers, hserves⟩ := hplan.module_served module hmem
  cases hfind.symm.trans hothers
  exact hserves

theorem serves_of_getElem? {id : Id .module} {module : Module} {providers : List Provider}
    (hmodule : graph.Effective root id module)
    (hfind : plan.byModule.find? module.name = some providers) {index : Nat} {medium : Medium}
    (hmedium : (module.media graph)[index]? = some medium) {provider : Provider}
    (hprovider : providers[index]? = some provider) : assigned.Serves medium provider := by
  obtain ⟨other, hother, hserves⟩ :=
    getElem?_of_forall₂ (forall₂_serves hplan hinput hmodule hfind) hmedium
  cases hprovider.symm.trans hother
  exact hserves

theorem Stands.unique {a b : Place} {p q : Provider} (hp : plan.Stands graph root a p)
    (hq : plan.Stands graph root b q) (hab : a = b) : p = q := by
  cases hp with
  | @ofModule id module providers _ index medium hmodule hfind hmedium hprovider =>
      have hsource := sourceAt_of_media hmedium
      cases hq with
      | @ofModule id' module' providers' _ index' medium' hmodule' hfind' hmedium' hprovider' =>
          have hsource' := sourceAt_of_media hmedium'
          have hsame : id = id' → module = module' := by
            rintro rfl
            exact eq_of_effective hmodule hmodule'
          rcases index_eq_of_placeAt_eq hsource hsource' hsame hab with
            ⟨bound, rfl, rfl⟩ | ⟨hid, rfl⟩
          -- Two modules may list one binding; the assignment remembers one provider for it.
          · have hserves := serves_of_getElem? hplan hinput hmodule hfind hmedium hprovider
            have hserves' := serves_of_getElem? hplan hinput hmodule' hfind' hmedium' hprovider'
            exact Option.some.inj ((hserves.2 bound rfl).symm.trans (hserves'.2 bound rfl))
          · obtain rfl := hsame hid
            cases hfind.symm.trans hfind'
            exact Option.some.inj (hprovider.symm.trans hprovider')
      | ofImport => exact absurd hab (placeAt_ne_importedGetter hsource)
  | ofImport hmodule himport hcontract hfind hgetter hprovider =>
      cases hq with
      | ofModule hmodule' hfind' hmedium' hprovider' =>
          exact absurd hab.symm (placeAt_ne_importedGetter (sourceAt_of_media hmedium'))
      | ofImport hmodule' himport' hcontract' hfind' hgetter' hprovider' =>
          obtain ⟨rfl, rfl⟩ := Place.importedGetter.inj hab
          cases hcontract.symm.trans hcontract'
          cases hfind.symm.trans hfind'
          exact Option.some.inj (hprovider.symm.trans hprovider')

omit hinput in
theorem Supplies.name_mem {provider : Provider} (h : plan.Supplies graph root provider) :
    provider.name ∈ plan.providers.map Provider.name := by
  rw [hplan.providers_eq, firsts, key_mem_map_firstsFrom, List.map_append, List.mem_append]
  refine ⟨?_, List.not_mem_nil⟩
  cases h with
  | ofModule hmodule hfind hprovider =>
      have hlisted := List.mem_flatten.2 ⟨_, Table.mem_values_of_find? hfind, hprovider⟩
      exact .inl (List.mem_map_of_mem hlisted)
  | ofImport hmodule himport hcontract hfind hprovider =>
      have hlisted := List.mem_flatten.2 ⟨_, Table.mem_values_of_find? hfind, hprovider⟩
      exact .inr (List.mem_map_of_mem hlisted)

theorem Supplies.exists_stands {provider : Provider} (h : plan.Supplies graph root provider) :
    ∃ place, plan.Stands graph root place provider := by
  cases h with
  | ofModule hmodule hfind hprovider =>
      obtain ⟨index, hindex⟩ := List.getElem?_of_mem hprovider
      have hserves := forall₂_serves hplan hinput hmodule hfind
      obtain ⟨medium, hmedium, -⟩ := getElem?_of_forall₂ hserves.flip hindex
      exact ⟨_, .ofModule hmodule hfind hmedium hindex⟩
  | ofImport hmodule himport hcontract hfind hprovider =>
      obtain ⟨index, hindex⟩ := List.getElem?_of_mem hprovider
      have hmem := mem_inputModules_of_effective hinput hmodule
      obtain ⟨others, first, hothers, hmedia⟩ :=
        hplan.import_served _ hmem _ _ _ _ himport hcontract
      cases hfind.symm.trans hothers
      have hgetter := congrArg (fun media => media[index]?) hmedia
      simp only [List.getElem?_map, hindex, Option.map_some] at hgetter
      obtain ⟨getter, hgetter, -⟩ := Option.map_eq_some_iff.1 hgetter.symm
      exact ⟨_, .ofImport hmodule himport hcontract hfind hgetter hindex⟩

theorem medium_of_import {id : Id .module} {module : Module} {imported : Id .contract}
    {contract : Contract} {site : ImportSite} {lazy : Bool} {providers : List Provider}
    (hmodule : graph.Effective root id module)
    (himport : .contract imported site lazy ∈ module.imports)
    (hcontract : graph.contracts.get? imported = some contract)
    (hfind : plan.byContract.find? contract.name = some providers) :
    ∃ first, providers.map Provider.medium = contract.getters.map (.getter imported first) := by
  have hmem := mem_inputModules_of_effective hinput hmodule
  obtain ⟨others, first, hothers, hmedia⟩ := hplan.import_served _ hmem _ _ _ _ himport hcontract
  cases hfind.symm.trans hothers
  exact ⟨first, hmedia⟩

theorem Stands.providedAt {place : Place} {provider : Provider}
    (h : plan.Stands graph root place provider) :
    ∃ own, provider.key? graph = some own ∧ ProvidedAt graph root place own.boxed := by
  cases h with
  | @ofModule id module _ _ _ medium hmodule hfind hmedium hprovider =>
      have hserves := serves_of_getElem? hplan hinput hmodule hfind hmedium hprovider
      -- The place of a source counts within its kind, and its index among all sources of the
      -- module.
      have hsource := sourceAt_of_media hmedium
      unfold Provider.key?
      rw [hserves.1]
      cases hsource with
      | provisionPoint hpoint => exact ⟨_, rfl, _, .provisionPoint hmodule hpoint⟩
      | binding hbinding => exact ⟨_, rfl, _, .declaredBinding hmodule hbinding⟩
      | @factory place entry hfactory =>
          have hget := Module.get?_of_mem_knownFactories (List.mem_of_getElem? hfactory)
          have hhosted : (graph.hostedFactories module)[place]? = some entry.2 := by
            rw [← Module.map_snd_knownFactories, List.getElem?_map, hfactory]
            rfl
          have hprovides := Provides.hostedFactory hmodule hhosted
          refine ⟨entry.2.key, by simp only [hget, Option.map_some], ?_⟩
          rw [placeAt, Nat.add_sub_cancel_left]
          exact ⟨_, hprovides⟩
      | @contract place entry hcontract =>
          have hget := Module.get?_of_mem_knownContracts (List.mem_of_getElem? hcontract)
          have hhosted : (graph.hostedContracts module)[place]? = some entry.2 := by
            rw [← Module.map_snd_knownContracts, List.getElem?_map, hcontract]
            rfl
          have hprovides := Provides.hostedContract hmodule hhosted
          refine ⟨entry.2.key, by simp only [hget, Option.map_some], ?_⟩
          rw [placeAt, Nat.add_sub_cancel_left]
          exact ⟨_, hprovides⟩
  | @ofImport _ _ imported contract site lazy _ _ index getter hmodule himport hcontract hfind
      hgetter hprovider =>
      obtain ⟨first, hmedia⟩ := medium_of_import hplan hinput hmodule himport hcontract hfind
      have hmedium := congrArg (fun media => media[index]?) hmedia
      simp only [List.getElem?_map, hprovider, hgetter, Option.map_some, Option.some.injEq]
        at hmedium
      unfold Provider.key?
      rw [hmedium]
      exact ⟨_, rfl, _, .importedGetter hmodule himport hcontract hgetter⟩

theorem exists_supplies_of_media {id : Id .module} {module : Module}
    (hmodule : graph.Effective root id module) {medium : Medium}
    (hmedium : medium ∈ module.media graph) :
    ∃ provider, plan.Supplies graph root provider ∧ provider.medium = medium := by
  have hmem := mem_inputModules_of_effective hinput hmodule
  obtain ⟨providers, hfind, hserves⟩ := hplan.module_served module hmem
  obtain ⟨provider, hprovider, hserved⟩ := exists_right_of_forall₂ hserves hmedium
  exact ⟨provider, .ofModule hmodule hfind hprovider, hserved.1⟩

theorem exists_supplies_of_import {id : Id .module} {module : Module} {imported : Id .contract}
    {contract : Contract} {site : ImportSite} {lazy : Bool} {getter : Getter}
    (hmodule : graph.Effective root id module)
    (himport : .contract imported site lazy ∈ module.imports)
    (hcontract : graph.contracts.get? imported = some contract)
    (hgetter : getter ∈ contract.getters) :
    ∃ provider first, plan.Supplies graph root provider ∧
      provider.medium = .getter imported first getter := by
  have hmem := mem_inputModules_of_effective hinput hmodule
  obtain ⟨providers, first, hfind, hmedia⟩ :=
    hplan.import_served _ hmem _ _ _ _ himport hcontract
  have hserved : .getter imported first getter ∈ providers.map Provider.medium := by
    rw [hmedia]
    exact List.mem_map_of_mem hgetter
  obtain ⟨provider, hprovider, hmedium⟩ := List.mem_map.1 hserved
  exact ⟨provider, first, .ofImport hmodule himport hcontract hfind hprovider, hmedium⟩

theorem exists_supplies_of_providedAt {place : Place} {key : Key}
    (h : ProvidedAt graph root place key) :
    key = (Key.ofClass Vocabulary.injector).boxed ∨ ImportsKey graph root key ∨
      ∃ provider own, plan.Supplies graph root provider ∧ provider.key? graph = some own ∧
        own.boxed = key := by
  obtain ⟨source, h⟩ := h
  cases h with
  | injector => exact .inl rfl
  | importedContract hmodule himport hcontract =>
      exact .inr (.inl ⟨_, _, _, _, _, _, hmodule, himport, hcontract, rfl⟩)
  | @provisionPoint _ module _ point hmodule hpoint =>
      have hmedium : .provisionPoint point ∈ module.media graph :=
        Module.mem_media.2 (.inl ⟨point, List.mem_of_getElem? hpoint, rfl⟩)
      obtain ⟨provider, hprovider, hmade⟩ := exists_supplies_of_media hplan hinput hmodule hmedium
      exact .inr (.inr ⟨provider, _, hprovider, by rw [Provider.key?, hmade], rfl⟩)
  | @declaredBinding _ module bound hmodule hbinding =>
      have hmedium : .binding bound ∈ module.media graph :=
        Module.mem_media.2 (.inr (.inl ⟨bound, hbinding, rfl⟩))
      obtain ⟨provider, hprovider, hmade⟩ := exists_supplies_of_media hplan hinput hmodule hmedium
      exact .inr (.inr ⟨provider, _, hprovider, by rw [Provider.key?, hmade], rfl⟩)
  | hostedFactory hmodule hfactory =>
      obtain ⟨id, hget, hmedium⟩ := exists_media_of_factory (List.mem_of_getElem? hfactory)
      obtain ⟨provider, hprovider, hmade⟩ := exists_supplies_of_media hplan hinput hmodule hmedium
      refine .inr (.inr ⟨provider, _, hprovider, ?_, rfl⟩)
      simp only [Provider.key?, hmade, hget, Option.map_some]
  | hostedContract hmodule hcontract =>
      obtain ⟨id, hget, hmedium⟩ := exists_media_of_contract (List.mem_of_getElem? hcontract)
      obtain ⟨provider, hprovider, hmade⟩ := exists_supplies_of_media hplan hinput hmodule hmedium
      refine .inr (.inr ⟨provider, _, hprovider, ?_, rfl⟩)
      simp only [Provider.key?, hmade, hget, Option.map_some]
  | importedGetter hmodule himport hcontract hgetter =>
      obtain ⟨provider, first, hprovider, hmade⟩ := exists_supplies_of_import hplan hinput hmodule
        himport hcontract (List.mem_of_getElem? hgetter)
      exact .inr (.inr ⟨provider, _, hprovider, by rw [Provider.key?, hmade], rfl⟩)

theorem Supplies.unique
    (hplaces : ∀ key a b, ProvidedAt graph root a key → ProvidedAt graph root b key → a = b)
    {p q : Provider} (hp : plan.Supplies graph root p) (hq : plan.Supplies graph root q) {a b : Key}
    (ha : p.key? graph = some a) (hb : q.key? graph = some b) (hab : a.boxed = b.boxed) :
    p = q := by
  obtain ⟨here, hhere⟩ := hp.exists_stands hplan hinput
  obtain ⟨there, hthere⟩ := hq.exists_stands hplan hinput
  obtain ⟨own, hown, hprovided⟩ := hhere.providedAt hplan hinput
  obtain ⟨other, hother, hprovided'⟩ := hthere.providedAt hplan hinput
  cases ha.symm.trans hown
  cases hb.symm.trans hother
  rw [← hab] at hprovided'
  exact Stands.unique hplan hinput hhere hthere (hplaces _ _ _ hprovided hprovided')

/-! ## Needed keys -/

theorem Needs.requires_or_importsKey {key : Key} (h : plan.Needs graph root key) :
    (∃ requirer, Requires graph root key.boxed requirer) ∨ ImportsKey graph root key.boxed := by
  cases h with
  | argument hmodule hfactory hmethod hargument =>
      exact .inl ⟨_, .factoryMethod hmodule hfactory hmethod hargument⟩
  | getter hmodule hcontract hgetter => exact .inl ⟨_, .getter hmodule hcontract hgetter⟩
  | @dependency provider _ hprovider hkey =>
      cases hprovider with
      | ofModule hmodule hfind hlisted =>
          have hserves := forall₂_serves hplan hinput hmodule hfind
          obtain ⟨medium, hmedium, hserved⟩ := exists_left_of_forall₂ hserves hlisted
          rw [hserved.1] at hkey
          rcases Module.mem_media.1 hmedium with
            ⟨point, hpoint, rfl⟩ | ⟨bound, hbound, rfl⟩ | ⟨_, -, rfl⟩ | ⟨_, -, rfl⟩
          · obtain ⟨injectee, hinjectee, rfl⟩ := List.mem_map.1 hkey
            exact .inl ⟨_, .provisionPoint hmodule hpoint hinjectee⟩
          · obtain rfl := List.mem_singleton.1 hkey
            exact .inl ⟨_, .declaredBinding hmodule hbound⟩
          · cases hkey
          · cases hkey
      | @ofImport _ _ imported contract _ _ providers _ hmodule himport hcontract hfind hlisted =>
          -- The provider of a getter needs the contract itself, which is imported.
          obtain ⟨first, hmedia⟩ := medium_of_import hplan hinput hmodule himport hcontract hfind
          have hmedium : provider.medium ∈ providers.map Provider.medium :=
            List.mem_map_of_mem hlisted
          rw [hmedia] at hmedium
          obtain ⟨getter, -, hmedium⟩ := List.mem_map.1 hmedium
          rw [← hmedium, Medium.dependencyKeys, hcontract] at hkey
          obtain rfl := List.mem_singleton.1 hkey
          exact .inr ⟨_, _, _, _, _, _, hmodule, himport, hcontract, rfl⟩

theorem Needs.served (hduplicates : (ofRoot graph root).duplicates = [])
    (hunresolved : (ofRoot graph root).unresolved = []) {key : Key}
    (h : plan.Needs graph root key) : plan.Served graph root key := by
  rcases h.requires_or_importsKey hplan hinput with ⟨requirer, hrequires⟩ | himports
  -- No missing key gives a place for the key, and no duplicate gives only one.
  · have hprovided : ∃ place, ProvidedAt graph root place key.boxed := by
      by_contra hnone
      have hmissing := mem_map_fst_unresolved.2 ⟨⟨requirer, hrequires⟩, hnone⟩
      rw [hunresolved] at hmissing
      cases hmissing
    have hplaces : ∀ key a b, ProvidedAt graph root a key → ProvidedAt graph root b key →
        a = b := by
      intro key a b ha hb
      by_contra hne
      have hduplicate := mem_map_fst_duplicates.2 ⟨a, b, hne, ha, hb⟩
      rw [hduplicates] at hduplicate
      cases hduplicate
    obtain ⟨place, hplace⟩ := hprovided
    rcases exists_supplies_of_providedAt hplan hinput hplace with
      hinjector | himports | ⟨provider, own, hprovider, hown, hkey⟩
    · exact .inl hinjector
    · exact .inr (.inl himports)
    · refine .inr (.inr ⟨provider, ⟨hprovider, own, hown, hkey⟩, ?_⟩)
      rintro other ⟨hother, key', hkey', hsame⟩
      exact Supplies.unique hplan hinput hplaces hother hprovider hkey' hown (hsame.trans hkey.symm)
  · exact .inr (.inl himports)

end

/-! ## References in units -/

theorem exists_key_of_mediumSource {medium : Medium} {source : UnitSource}
    {dependencies : List DependencyReference}
    (h : plan.mediumSource graph medium = .ok (source, dependencies)) {reference : KeyReference}
    (hreference : reference ∈ dependencies.map DependencyReference.key) :
    ∃ key ∈ medium.dependencyKeys graph, plan.referTo key = .ok reference := by
  obtain ⟨dependency, hdependency, rfl⟩ := List.mem_map.1 hreference
  cases medium with
  | provisionPoint point =>
      obtain ⟨references, hreferences, hdone⟩ := bind_eq_ok.1 h
      cases hdone
      obtain ⟨injectee, hinjectee, hrefer⟩ :=
        exists_left_of_forall₂ (forall₂_of_mapM_eq_ok hreferences) hdependency
      exact ⟨_, List.mem_map_of_mem hinjectee, (referToDependency_eq_ok.1 hrefer).1⟩
  | binding bound =>
      obtain ⟨implementation, hrefer, hdone⟩ := bind_eq_ok.1 h
      cases hdone
      obtain rfl := List.mem_singleton.1 hdependency
      exact ⟨_, List.mem_singleton_self _, hrefer⟩
  | getter id lazy served =>
      obtain ⟨contract, hcontract, h⟩ := bind_eq_ok.1 h
      obtain ⟨implementation, hrefer, hdone⟩ := bind_eq_ok.1 h
      cases hdone
      obtain rfl := List.mem_singleton.1 hdependency
      refine ⟨contract.key, ?_, hrefer⟩
      unfold contractOf at hcontract
      split at hcontract
      · next held hheld =>
          cases hcontract
          rw [Medium.dependencyKeys, hheld]
          exact List.mem_singleton_self _
      · cases hcontract
  | factory id | contract id =>
      obtain ⟨_, -, hdone⟩ := bind_eq_ok.1 h
      cases hdone
      cases hdependency

theorem exists_dependency_of_unitArgument {argument : FactoryArgument} {built : UnitArgument}
    (h : plan.unitArgument argument = .ok built) {reference : KeyReference}
    (hreference : built.reference? = some reference) :
    ∃ dependency, argument = .injected dependency ∧
      plan.referTo dependency.key = .ok reference := by
  cases argument with
  | passed =>
      cases h
      cases hreference
  | injected dependency =>
      obtain ⟨held, hheld, hdone⟩ := bind_eq_ok.1 h
      cases hdone
      cases hreference
      exact ⟨dependency, rfl, (referToDependency_eq_ok.1 hheld).1⟩

theorem Generates.exists_needs {unit : GeneratedUnit} (h : plan.Generates graph root unit)
    {reference : KeyReference} (hreference : reference ∈ unit.dependencies) :
    ∃ key, plan.Needs graph root key ∧ plan.referTo key = .ok reference := by
  cases h with
  | provider hprovider hunit =>
      obtain ⟨⟨source, dependencies⟩, hsource, h⟩ := bind_eq_ok.1 hunit
      obtain ⟨own, -, h⟩ := bind_eq_ok.1 h
      obtain ⟨_, -, hdone⟩ := bind_eq_ok.1 h
      cases hdone
      obtain ⟨key, hkey, hrefer⟩ := exists_key_of_mediumSource hsource hreference
      exact ⟨key, .dependency hprovider hkey, hrefer⟩
  | factory hmodule hfactory hunit =>
      obtain ⟨methods, hmethods, hdone⟩ := bind_eq_ok.1 hunit
      cases hdone
      obtain ⟨built, hbuilt, hmem⟩ := List.mem_flatMap.1 hreference
      obtain ⟨argument, hargument, hreference⟩ := List.mem_filterMap.1 hmem
      obtain ⟨method, hmethod, h⟩ := exists_left_of_forall₂ (forall₂_of_mapM_eq_ok hmethods) hbuilt
      obtain ⟨arguments, harguments, hdone⟩ := bind_eq_ok.1 h
      cases hdone
      obtain ⟨declared, hdeclared, h⟩ :=
        exists_left_of_forall₂ (forall₂_of_mapM_eq_ok harguments) hargument
      obtain ⟨dependency, rfl, hrefer⟩ := exists_dependency_of_unitArgument h hreference
      exact ⟨_, .argument hmodule hfactory hmethod hdeclared, hrefer⟩
  | contract hmodule hcontract hunit =>
      obtain ⟨methods, hmethods, hdone⟩ := bind_eq_ok.1 hunit
      cases hdone
      obtain ⟨built, hbuilt, rfl⟩ := List.mem_map.1 hreference
      obtain ⟨getter, hgetter, h⟩ := exists_left_of_forall₂ (forall₂_of_mapM_eq_ok hmethods) hbuilt
      obtain ⟨dependency, hdependency, hdone⟩ := bind_eq_ok.1 h
      cases hdone
      exact ⟨_, .getter hmodule hcontract hgetter, (referToDependency_eq_ok.1 hdependency).1⟩

end Plan

end InjectionCompiler
