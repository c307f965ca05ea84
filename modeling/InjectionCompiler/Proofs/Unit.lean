import InjectionCompiler.Proofs.Reference

/-!
# The units of a plan

Every unit of a plan can be built, and whatever key it refers to is one that the plan collected.
-/

namespace InjectionCompiler

/-! ## References within units -/

def UnitSource.references : UnitSource → List KeyReference
  | .binding implementation => [implementation]
  | .contractMethod reference _ _ => [reference]
  | _ => []

def UnitArgument.reference? : UnitArgument → Option KeyReference
  | .injector dependency => some dependency.key
  | .parameter _ => none

/-- Every reference to a key that stands in a unit. -/
def GeneratedUnit.references : GeneratedUnit → List KeyReference
  | .provider unit =>
      unit.key :: (unit.source.references ++ unit.dependencies.map DependencyReference.key)
  | .factory unit =>
      unit.methods.flatMap fun method => method.arguments.filterMap UnitArgument.reference?
  | .contract unit => unit.methods.map fun method => method.dependency.key
  | .invader _ => []
  | .registry _ => []

/-- The ids of the medium refer to something. -/
def Medium.InRange (graph : ObjectGraph) : Medium → Prop
  | .factory id => ∃ factory, graph.factories.get? id = some factory
  | .contract id => ∃ contract, graph.contracts.get? id = some contract
  | .getter id _ _ => ∃ contract, graph.contracts.get? id = some contract
  | _ => True

/-- The keys that the unit of a provider needs from the injector. -/
def Medium.dependencyKeys (graph : ObjectGraph) : Medium → List Key
  | .provisionPoint point => point.injectees.map Dependency.key
  | .binding bound => [bound.implementation]
  | .getter id _ _ => ((graph.contracts.get? id).map Contract.key).toList
  | .factory _ => []
  | .contract _ => []

namespace Plan

/-- The reference is that of a key which the plan resolves. -/
def RefersTo (graph : ObjectGraph) (plan : Plan) (reference : KeyReference) : Prop :=
  ∃ key, plan.Resolves graph key ∧ plan.referTo key = .ok reference

variable {path : ClassPath} {graph : ObjectGraph} {plan : Plan} {assigned : Assignment}

theorem mem_dependencyKeys_resolves {provider : Provider} (hprovider : provider ∈ plan.providers)
    {key : Key} (h : key ∈ provider.medium.dependencyKeys graph) : plan.Resolves graph key := by
  cases hmedium : provider.medium with
  | provisionPoint point =>
      rw [hmedium] at h
      obtain ⟨injectee, hinjectee, rfl⟩ := List.mem_map.1 h
      exact .injectee hprovider hmedium hinjectee
  | binding bound =>
      rw [hmedium] at h
      obtain rfl := List.mem_singleton.1 h
      exact .implementation hprovider hmedium
  | getter id lazy served =>
      rw [hmedium] at h
      obtain ⟨contract, hcontract, rfl⟩ := Option.map_eq_some_iff.1 (Option.mem_toList.1 h)
      exact .contract hprovider hmedium hcontract
  | factory | contract =>
      rw [hmedium] at h
      cases h

/-! ## The media of a plan -/

theorem inRange_of_mem_media {module : Module} {medium : Medium}
    (h : medium ∈ module.media graph) : medium.InRange graph := by
  rcases Module.mem_media.1 h with
    ⟨point, -, rfl⟩ | ⟨bound, -, rfl⟩ | ⟨entry, hentry, rfl⟩ | ⟨entry, hentry, rfl⟩
  · trivial
  · trivial
  · exact ⟨entry.2, Module.get?_of_mem_knownFactories hentry⟩
  · exact ⟨entry.2, Module.get?_of_mem_knownContracts hentry⟩

theorem exists_key?_of_inRange {provider : Provider} (h : provider.medium.InRange graph) :
    ∃ key, provider.key? graph = some key := by
  unfold Provider.key?
  cases hmedium : provider.medium with
  | provisionPoint | binding | getter => exact ⟨_, rfl⟩
  | factory id =>
      rw [hmedium] at h
      obtain ⟨held, hheld⟩ := h
      exact ⟨held.key, by simp [hheld]⟩
  | contract id =>
      rw [hmedium] at h
      obtain ⟨held, hheld⟩ := h
      exact ⟨held.key, by simp [hheld]⟩

theorem referToDependency_eq_ok {dependency : Dependency} {reference : DependencyReference} :
    plan.referToDependency dependency = .ok reference ↔
      plan.referTo dependency.key = .ok reference.key ∧
        reference.delivery = dependency.delivery := by
  unfold referToDependency
  cases plan.referTo dependency.key with
  | error => simp [Bind.bind, Except.bind]
  | ok key =>
      obtain ⟨other, delivery⟩ := reference
      simp [Bind.bind, Except.bind, Pure.pure, Except.pure, eq_comm]

section

variable (hplan : plan.Complete path graph assigned)

include hplan

theorem inRange_of_mem_providers {provider : Provider} (h : provider ∈ plan.providers) :
    provider.medium.InRange graph := by
  rw [hplan.providers_eq] at h
  rcases List.mem_append.1 (mem_of_mem_firstsFrom h).1 with hmodule | hcontract
  · obtain ⟨providers, hproviders, hmem⟩ := List.mem_flatten.1 hmodule
    obtain ⟨⟨name, listed⟩, hentry, rfl⟩ := List.mem_map.1 hproviders
    obtain ⟨module, -, -, hserves⟩ := hplan.of_module _ _ hentry
    refine @inRange_of_mem_media graph module _ ?_
    rw [← Assignment.map_medium_of_serves hserves]
    exact List.mem_map_of_mem hmem
  · obtain ⟨providers, hproviders, hmem⟩ := List.mem_flatten.1 hcontract
    obtain ⟨⟨name, listed⟩, hentry, rfl⟩ := List.mem_map.1 hproviders
    obtain ⟨id, contract, lazy, hcontract, -, hmedia⟩ := hplan.of_import _ _ hentry
    have hmedium : provider.medium ∈ listed.map Provider.medium := List.mem_map_of_mem hmem
    rw [hmedia] at hmedium
    obtain ⟨getter, -, hgetter⟩ := List.mem_map.1 hmedium
    rw [← hgetter]
    exact ⟨contract, hcontract⟩

/-! ## Building -/

theorem exists_referToDependency {dependency : Dependency}
    (h : plan.Resolves graph dependency.key) :
    ∃ reference, plan.referToDependency dependency = .ok reference ∧
      plan.referTo dependency.key = .ok reference.key := by
  obtain ⟨key, hkey⟩ := exists_referTo hplan h.mem_keys
  exact ⟨⟨key, dependency.delivery⟩, referToDependency_eq_ok.2 ⟨hkey, rfl⟩, hkey⟩

theorem exists_mediumSource {provider : Provider} (hprovider : provider ∈ plan.providers) :
    ∃ source dependencies, plan.mediumSource graph provider.medium = .ok (source, dependencies) ∧
      List.Forall₂ (fun key reference => plan.referTo key = .ok reference)
        (provider.medium.dependencyKeys graph) (dependencies.map DependencyReference.key) ∧
      ∀ reference ∈ source.references, reference ∈ dependencies.map DependencyReference.key := by
  have hrefer : ∀ key ∈ provider.medium.dependencyKeys graph,
      ∃ reference, plan.referTo key = .ok reference := fun key hkey =>
    exists_referTo hplan (mem_dependencyKeys_resolves hprovider hkey).mem_keys
  -- What is left are the ids of the medium, which a plan of providers never has out of range.
  have hrange := inRange_of_mem_providers hplan hprovider
  cases hmedium : provider.medium with
  | provisionPoint point =>
      rw [hmedium] at hrefer
      have hdependencies : ∀ injectee ∈ point.injectees, ∃ reference : DependencyReference,
          plan.referToDependency injectee = .ok reference ∧
            plan.referTo injectee.key = .ok reference.key := by
        intro injectee hinjectee
        obtain ⟨reference, hreference⟩ := hrefer _ (List.mem_map_of_mem hinjectee)
        exact ⟨⟨reference, injectee.delivery⟩, referToDependency_eq_ok.2 ⟨hreference, rfl⟩,
          hreference⟩
      obtain ⟨dependencies, hmapM, hrelated⟩ := exists_mapM_ok hdependencies
      refine ⟨pointSource point, dependencies, by rw [mediumSource, hmapM]; rfl, ?_, ?_⟩
      · rw [Medium.dependencyKeys, List.forall₂_map_left_iff, List.forall₂_map_right_iff]
        exact hrelated
      · unfold pointSource
        split <;> exact fun reference h => absurd h List.not_mem_nil
  | binding bound =>
      rw [hmedium] at hrefer
      obtain ⟨reference, hreference⟩ := hrefer _ (List.mem_singleton_self _)
      refine ⟨.binding reference, [⟨reference, .direct⟩], ?_, .cons hreference .nil, ?_⟩
      · rw [mediumSource, hreference]
        rfl
      · exact fun other h => h
  | getter id lazy served =>
      rw [hmedium] at hrange hrefer
      obtain ⟨contract, hcontract⟩ := hrange
      have hkeys : (Medium.getter id lazy served).dependencyKeys graph = [contract.key] := by
        rw [Medium.dependencyKeys, hcontract]
        rfl
      obtain ⟨reference, hreference⟩ := hrefer contract.key (by rw [hkeys]; simp)
      refine ⟨.contractMethod reference served.method lazy,
        [⟨reference, if lazy then .lazy else .direct⟩], ?_, ?_, ?_⟩
      · simp only [mediumSource, contractOf, hcontract]
        change (plan.referTo contract.key >>= _) = _
        rw [hreference]
        rfl
      · rw [hkeys]
        exact .cons hreference .nil
      · exact fun other h => h
  | factory id =>
      rw [hmedium] at hrange
      obtain ⟨factory, hfactory⟩ := hrange
      refine ⟨.factory factory.implementation, [], ?_, .nil, fun _ h => h⟩
      rw [mediumSource, factoryOf, hfactory]
      rfl
  | contract id =>
      rw [hmedium] at hrange
      obtain ⟨contract, hcontract⟩ := hrange
      refine ⟨.contract contract.implementation, [], ?_, .nil, fun _ h => h⟩
      rw [mediumSource, contractOf, hcontract]
      rfl

theorem exists_providerUnit {provider : Provider} (hprovider : provider ∈ plan.providers) :
    ∃ unit key, plan.providerUnit graph provider = .ok (.provider unit) ∧
      provider.key? graph = some key ∧ plan.referTo key = .ok unit.key ∧
      List.Forall₂ (fun key reference => plan.referTo key = .ok reference)
        (provider.medium.dependencyKeys graph)
        (unit.dependencies.map DependencyReference.key) ∧
      ∀ reference ∈ unit.source.references,
        reference ∈ unit.dependencies.map DependencyReference.key := by
  obtain ⟨source, dependencies, hsource, hrelated, hreferences⟩ :=
    exists_mediumSource hplan hprovider
  obtain ⟨key, hkey⟩ := exists_key?_of_inRange (inRange_of_mem_providers hplan hprovider)
  obtain ⟨reference, hreference⟩ := exists_referTo hplan (Resolves.own hprovider hkey).mem_keys
  refine ⟨⟨provider.name, reference, (mediumScope provider.medium).1,
    (mediumScope provider.medium).2, source, dependencies⟩, key, ?_, hkey, hreference, hrelated,
    hreferences⟩
  simp only [providerUnit, providerKey, hsource, hkey]
  change (plan.referTo key >>= _) = _
  rw [hreference]
  rfl

theorem exists_unitArgument {argument : FactoryArgument}
    (h : ∀ dependency, argument = .injected dependency → plan.Resolves graph dependency.key) :
    ∃ built, plan.unitArgument argument = .ok built ∧
      ∀ reference, built.reference? = some reference → plan.RefersTo graph reference := by
  cases argument with
  | passed dependency index => exact ⟨.parameter index, rfl, fun reference h => by cases h⟩
  | injected dependency =>
      have hresolves := h dependency rfl
      obtain ⟨reference, hdependency, hreference⟩ := exists_referToDependency hplan hresolves
      refine ⟨.injector reference, by rw [unitArgument, hdependency]; rfl, ?_⟩
      rintro _ ⟨⟩
      exact ⟨_, hresolves, hreference⟩

theorem exists_factoryUnit {id : Id .factory} (hid : id ∈ plan.factories) {factory : Factory}
    (hfactory : graph.factories.get? id = some factory) :
    ∃ unit, plan.factoryUnit factory = .ok unit ∧
      ∀ reference ∈ unit.references, plan.RefersTo graph reference := by
  have hmethods : ∀ method ∈ factory.methods, ∃ built : FactoryMethodUnit,
      (do
        let arguments ← method.arguments.mapM plan.unitArgument
        return (⟨method.method, method.implementation, arguments⟩ : FactoryMethodUnit)) =
          Except.ok built ∧
        ∀ argument ∈ built.arguments, ∀ reference, argument.reference? = some reference →
          plan.RefersTo graph reference := by
    intro method hmethod
    obtain ⟨arguments, harguments, hholds⟩ := exists_mapM_ok_forall fun argument hargument =>
      exists_unitArgument hplan fun dependency heq =>
        Resolves.argument hid hfactory hmethod (heq ▸ hargument)
    exact ⟨⟨method.method, method.implementation, arguments⟩, by rw [harguments]; rfl, hholds⟩
  obtain ⟨methods, hmapM, hholds⟩ := exists_mapM_ok_forall hmethods
  refine ⟨.factory ⟨factory.implementation, factory.name, methods⟩, ?_, ?_⟩
  · rw [factoryUnit, hmapM]
    rfl
  · intro reference hreference
    obtain ⟨method, hmethod, hmem⟩ := List.mem_flatMap.1 hreference
    obtain ⟨argument, hargument, heq⟩ := List.mem_filterMap.1 hmem
    exact hholds method hmethod argument hargument reference heq

theorem exists_contractUnit {id : Id .contract} (hid : id ∈ plan.contracts) {contract : Contract}
    (hcontract : graph.contracts.get? id = some contract) :
    ∃ unit, plan.contractUnit contract = .ok unit ∧
      ∀ reference ∈ unit.references, plan.RefersTo graph reference := by
  have hgetters : ∀ getter ∈ contract.getters, ∃ built : ContractMethodUnit,
      (do
        let dependency ← plan.referToDependency getter.injectee
        return (⟨getter.method, dependency⟩ : ContractMethodUnit)) = Except.ok built ∧
        plan.RefersTo graph built.dependency.key := by
    intro getter hgetter
    have hresolves := Resolves.getter hid hcontract hgetter
    obtain ⟨reference, hdependency, hreference⟩ := exists_referToDependency hplan hresolves
    exact ⟨⟨getter.method, reference⟩, by rw [hdependency]; rfl, _, hresolves, hreference⟩
  obtain ⟨methods, hmapM, hholds⟩ := exists_mapM_ok_forall hgetters
  refine ⟨.contract ⟨contract.implementation, contract.name, methods⟩, ?_, ?_⟩
  · rw [contractUnit, hmapM]
    rfl
  · intro reference hreference
    obtain ⟨method, hmethod, rfl⟩ := List.mem_map.1 hreference
    exact hholds method hmethod

theorem refersTo_providerUnit {provider : Provider} (hprovider : provider ∈ plan.providers) :
    ∃ unit, plan.providerUnit graph provider = .ok unit ∧
      ∀ reference ∈ unit.references, plan.RefersTo graph reference := by
  obtain ⟨unit, key, hunit, hkey, hown, hrelated, hsource⟩ := exists_providerUnit hplan hprovider
  have hdependency : ∀ reference ∈ unit.dependencies.map DependencyReference.key,
      plan.RefersTo graph reference := by
    intro reference hreference
    obtain ⟨key, hkey, hrefer⟩ := exists_left_of_forall₂ hrelated hreference
    exact ⟨key, mem_dependencyKeys_resolves hprovider hkey, hrefer⟩
  refine ⟨.provider unit, hunit, ?_⟩
  intro reference hreference
  rcases List.mem_cons.1 hreference with rfl | hreference
  · exact ⟨key, .own hprovider hkey, hown⟩
  · rcases List.mem_append.1 hreference with hreference | hreference
    · exact hdependency reference (hsource reference hreference)
    · exact hdependency reference hreference

theorem units_built {name : ClassName} {unit : Except Failure GeneratedUnit}
    (h : (name, unit) ∈ plan.units graph) :
    ∃ built, unit = .ok built ∧ ∀ reference ∈ built.references, plan.RefersTo graph reference := by
  simp only [units, List.mem_append, List.mem_map, List.mem_singleton, Prod.mk.injEq] at h
  rcases h with (((⟨provider, hprovider, -, rfl⟩ | ⟨factory, hfactory, -, rfl⟩) |
    ⟨contract, hcontract, -, rfl⟩) | ⟨invader, -, -, rfl⟩) | ⟨-, rfl⟩
  · exact refersTo_providerUnit hplan hprovider
  · obtain ⟨id, hid, hfactory⟩ := List.mem_filterMap.1 hfactory
    exact exists_factoryUnit hplan hid hfactory
  · obtain ⟨id, hid, hcontract⟩ := List.mem_filterMap.1 hcontract
    exact exists_contractUnit hplan hid hcontract
  · exact ⟨_, rfl, fun reference h => absurd h List.not_mem_nil⟩
  · exact ⟨_, rfl, fun reference h => absurd h List.not_mem_nil⟩

end

/-! ## Lossless references -/

/-- Every unit is built from keys that can be referred to, and a reference tells the boxed key. -/
structure Lossless (graph : ObjectGraph) (plan : Plan) : Prop where
  built : ∀ name unit, (name, unit) ∈ plan.units graph → ∃ built, unit = .ok built ∧
    ∀ reference ∈ built.references, plan.RefersTo graph reference
  resolved : ∀ key, plan.Resolves graph key → ∃ reference, plan.referTo key = .ok reference
  injective : ∀ a b, plan.Resolves graph a → plan.Resolves graph b →
    (plan.referTo a = plan.referTo b ↔ a.boxed = b.boxed)
  class_only : ∀ key name invader, plan.Resolves graph key →
    plan.referTo key = .ok (.classLiteral name invader) → key.boxed = .ofClass name
  own_slot : ∀ key, plan.Resolves graph key → (∀ name, key.boxed ≠ .ofClass name) →
    ∃ slot, plan.registry.find? key = some slot ∧
      plan.referTo key = .ok (.registry ⟨plan.registry.name, slot.field⟩) ∧
      ∀ other held, plan.registry.find? other = some held → held.field = slot.field →
        other.boxed = key.boxed

theorem Complete.lossless (hplan : plan.Complete path graph assigned) : plan.Lossless graph := by
  constructor
  case built => exact fun name unit hunit => units_built hplan hunit
  case resolved => exact fun key hkey => exists_referTo hplan hkey.mem_keys
  case injective =>
    intro a b ha hb
    exact ⟨boxed_eq_of_referTo_eq hplan ha.mem_keys hb.mem_keys, referTo_congr⟩
  case class_only =>
    exact fun key name invader hkey h => isClass_of_referTo_eq hplan hkey.mem_keys h
  case own_slot =>
    intro key hkey hclass
    obtain ⟨slot, hslot, hrefer⟩ := referTo_of_not_isClass hplan hkey.mem_keys hclass
    refine ⟨slot, hslot, hrefer, fun other held hheld hfield => ?_⟩
    exact boxed_eq_of_field_eq hplan hheld hslot hfield

end Plan

end InjectionCompiler
