import InjectionCompiler.Plan
import InjectionCompiler.Unit

/-!
# Building units

The units of a plan, in the order in which they are emitted: providers, factories, contracts,
package invaders, and the key registry.  A unit that cannot be built is answered by its failure.
-/

namespace InjectionCompiler

namespace Plan

/-! ## References -/

/-- A key is referred to by its registry slot, and by a class literal when it has none. -/
def referTo (plan : Plan) (key : Key) : Except Failure KeyReference :=
  match plan.registry.find? key with
  | some slot => .ok (.registry ⟨plan.registry.name, slot.field⟩)
  | none => do
      let name ← Assigning.elementClass key.boxed.type.erasure
      let invader := (plan.invaderField? name).map fun (invader, field) =>
        (⟨invader.name, field⟩ : FieldReference)
      return .classLiteral name invader

def referToDependency (plan : Plan) (dependency : Dependency) :
    Except Failure DependencyReference := do
  return ⟨← plan.referTo dependency.key, dependency.delivery⟩

/-! ## Providers -/

def scopeOf (point : ProvisionPoint) : Option ClassName × Bool :=
  match point.scope with
  | .unscoped => (none, false)
  | .scoped annotation eager => (some annotation, eager)

def pointSource (point : ProvisionPoint) : UnitSource :=
  match point.origin with
  | .constructor _ => .constructor point.owner
  | .method name _ => .method point.owner name
  | .field name => .field point.owner name

/-- A failure for an id that refers to nothing. -/
def danglingId (shown : String) : Failure :=
  .invalidType ("Nothing is stored under " ++ shown)

def factoryOf (graph : ObjectGraph) (id : Id .factory) : Except Failure Factory :=
  match graph.factories.get? id with
  | some factory => .ok factory
  | none => .error (danglingId id.display)

def contractOf (graph : ObjectGraph) (id : Id .contract) : Except Failure Contract :=
  match graph.contracts.get? id with
  | some contract => .ok contract
  | none => .error (danglingId id.display)

/-- What the unit of a provider makes its instances from, and what it needs for that. -/
def mediumSource (plan : Plan) (graph : ObjectGraph) (medium : Medium) :
    Except Failure (UnitSource × List DependencyReference) := do
  match medium with
  | .provisionPoint point =>
      let dependencies ← point.injectees.mapM plan.referToDependency
      return (pointSource point, dependencies)
  | .binding bound =>
      let implementation ← plan.referTo bound.implementation
      return (.binding implementation, [⟨implementation, .direct⟩])
  | .factory id =>
      let factory ← factoryOf graph id
      return (.factory factory.implementation, [])
  | .contract id =>
      let contract ← contractOf graph id
      return (.contract contract.implementation, [])
  | .getter id lazy served =>
      let contract ← contractOf graph id
      let reference ← plan.referTo contract.key
      return (.contractMethod reference served.method lazy,
        [⟨reference, if lazy then .lazy else .direct⟩])

def mediumScope : Medium → Option ClassName × Bool
  | .provisionPoint point => scopeOf point
  | _ => (none, false)

def providerKey (graph : ObjectGraph) (provider : Provider) : Except Failure Key :=
  match provider.key? graph with
  | some key => .ok key
  | none => .error (danglingId provider.medium.display)

def providerUnit (plan : Plan) (graph : ObjectGraph) (provider : Provider) :
    Except Failure GeneratedUnit := do
  let (source, dependencies) ← plan.mediumSource graph provider.medium
  let key ← plan.referTo (← providerKey graph provider)
  let (scope, eager) := mediumScope provider.medium
  return .provider ⟨provider.name, key, scope, eager, source, dependencies⟩

/-! ## Factories and contracts -/

def unitArgument (plan : Plan) : FactoryArgument → Except Failure UnitArgument
  | .injected dependency => return .injector (← plan.referToDependency dependency)
  | .passed _ index => return .parameter index

def factoryUnit (plan : Plan) (factory : Factory) : Except Failure GeneratedUnit := do
  let methods ← factory.methods.mapM fun method => do
    let arguments ← method.arguments.mapM plan.unitArgument
    return (⟨method.method, method.implementation, arguments⟩ : FactoryMethodUnit)
  return .factory ⟨factory.implementation, factory.name, methods⟩

def contractUnit (plan : Plan) (contract : Contract) : Except Failure GeneratedUnit := do
  let methods ← contract.getters.mapM fun getter => do
    let dependency ← plan.referToDependency getter.injectee
    return (⟨getter.method, dependency⟩ : ContractMethodUnit)
  return .contract ⟨contract.implementation, contract.name, methods⟩

/-! ## Helpers -/

def invaderUnit (invader : PackageInvader) : GeneratedUnit :=
  .invader ⟨invader.name, invader.package, invader.fields.entries⟩

def registryUnit (registry : KeyRegistry) : GeneratedUnit :=
  .registry ⟨registry.name, registry.slots.entries.map fun (key, slot) =>
    ⟨slot.field, key.display, slot.qualified⟩⟩

/-! ## All units -/

/-- Every unit of the plan under the name it is written to. -/
def units (plan : Plan) (graph : ObjectGraph) : List (ClassName × Except Failure GeneratedUnit) :=
  (plan.providers.map fun provider => (provider.name, plan.providerUnit graph provider)) ++
    ((plan.factories.filterMap graph.factories.get?).map fun factory =>
      (factory.implementation, plan.factoryUnit factory)) ++
    ((plan.contracts.filterMap graph.contracts.get?).map fun contract =>
      (contract.implementation, plan.contractUnit contract)) ++
    (plan.invaders.map fun invader => (invader.name, .ok (invaderUnit invader))) ++
    [(plan.registry.name, .ok (registryUnit plan.registry))]

end Plan

end InjectionCompiler
