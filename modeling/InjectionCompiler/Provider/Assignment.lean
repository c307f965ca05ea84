import InjectionCompiler.Journal
import InjectionCompiler.NameSupply
import InjectionCompiler.Provider

/-!
# Assigning providers

Each source gets one provider, named after the class it belongs to and the kind of the source.
Asking again for the same source answers the same provider and hands out no name.
-/

namespace InjectionCompiler

/-- The providers that were assigned so far. -/
structure Assignment where
  project : String
  names : NameSupply
  modules : Table ClassName (List Provider)
  constructors : Table ClassName Provider
  bindings : Table Binding Provider
  factories : Table ClassName Provider
  contracts : Table ClassName Provider
  /-- The getters of a contract, by its name and by how it is imported. -/
  getters : Table (ClassName × Bool) (List Provider)
  deriving DecidableEq, Repr

def Assignment.ofCompiled (project : String) (compiled : List ClassName) : Assignment :=
  ⟨project, .ofCompiled compiled, ∅, ∅, ∅, ∅, ∅, ∅⟩

/-- Work that assigns providers.  What was assigned before a failure stays assigned. -/
abbrev Assigning := ExceptT Failure (StateT Assignment Logged)

namespace Assigning

def takeName (choose : NameSupply → Except Failure (ClassName × NameSupply)) :
    Assigning ClassName := do
  match choose (← get).names with
  | .ok (name, names) =>
      modify fun assignment => { assignment with names := names }
      return name
  | .error failure => throw failure

/-- A new name for a source of the given kind that belongs to `owner`. -/
def takeProviderName (owner : ClassName) (kind : String) : Assigning ClassName := do
  let project := (← get).project
  takeName fun names => names.unique ⟨owner.internal ++ "$" ++ kind, "$" ++ project⟩

def newProvider (owner : ClassName) (kind : String) (medium : Medium) : Assigning Provider := do
  return ⟨← takeProviderName owner kind, medium⟩

/-! ## Single sources -/

def ofPoint (module : ClassName) (point : ProvisionPoint) : Assigning Provider := do
  match point.origin with
  | .constructor _ =>
      match (← get).constructors.find? point.owner with
      | some provider => return provider
      | none =>
          let provider ← newProvider point.owner "ConstructorProvider" (.provisionPoint point)
          modify fun assignment =>
            { assignment with
              constructors := assignment.constructors.insert point.owner provider }
          return provider
  | .method _ _ => newProvider module "MethodProvider" (.provisionPoint point)
  | .field _ => newProvider module "FieldProvider" (.provisionPoint point)

/-- The class that a type stands for once it is erased, boxed and stripped of arrays. -/
def elementClass (type : Descriptor) : Except Failure ClassName :=
  match type.elementClass with
  | .ok name => .ok name
  | .error text => .error (.invalidType ("Cannot extract an object type from " ++ text))

def ofBinding (binding : Binding) : Assigning Provider := do
  match (← get).bindings.find? binding with
  | some provider => return provider
  | none =>
      let owner ← elementClass binding.implementation.type.erasure
      let provider ← newProvider owner "BindingProvider" (.binding binding)
      modify fun assignment =>
        { assignment with bindings := assignment.bindings.insert binding provider }
      return provider

def ofFactory (id : Id .factory) (factory : Factory) : Assigning Provider := do
  match (← get).factories.find? factory.name with
  | some provider => return provider
  | none =>
      let provider ← newProvider factory.name "FactoryProvider" (.factory id)
      modify fun assignment =>
        { assignment with factories := assignment.factories.insert factory.name provider }
      return provider

def ofContract (id : Id .contract) (contract : Contract) : Assigning Provider := do
  match (← get).contracts.find? contract.name with
  | some provider => return provider
  | none =>
      let provider ← newProvider contract.name "ContractProvider" (.contract id)
      modify fun assignment =>
        { assignment with contracts := assignment.contracts.insert contract.name provider }
      return provider

/-! ## Modules and imported contracts -/

def ofModule (graph : ObjectGraph) (module : Module) : Assigning (List Provider) := do
  match (← get).modules.find? module.name with
  | some providers => return providers
  | none =>
      let points ← module.provisionPoints.mapM (ofPoint module.name)
      let bindings ← module.bindings.mapM ofBinding
      let factories ← (module.factories.filterMap fun id =>
        (graph.factories.get? id).map fun factory => (id, factory)).mapM fun (id, factory) =>
          ofFactory id factory
      let contracts ← (module.contracts.filterMap fun id =>
        (graph.contracts.get? id).map fun contract => (id, contract)).mapM fun (id, contract) =>
          ofContract id contract
      let providers := points ++ bindings ++ factories ++ contracts
      Logged.debug ("Created " ++ toString providers.length ++ " providers for module " ++
        module.name.display) []
      modify fun assignment =>
        { assignment with modules := assignment.modules.insert module.name providers }
      return providers

def ofImport (id : Id .contract) (contract : Contract) (lazy : Bool) :
    Assigning (List Provider) := do
  match (← get).getters.find? (contract.name, lazy) with
  | some providers => return providers
  | none =>
      let providers ← contract.getters.mapM fun getter =>
        newProvider contract.name "MethodProvider" (.getter id lazy getter)
      modify fun assignment =>
        { assignment with
          getters := assignment.getters.insert (contract.name, lazy) providers }
      return providers

end Assigning

end InjectionCompiler
