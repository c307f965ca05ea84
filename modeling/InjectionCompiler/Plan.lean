import InjectionCompiler.ClassPath
import InjectionCompiler.Provider.Assignment

/-!
# The generation plan

What is generated for one graph: the providers of all modules and contract imports of the current
input, and two kinds of helpers.  A package invader holds the classes of its package that other
packages cannot see; the key registry holds the keys that no class literal can spell.
-/

namespace InjectionCompiler

/-! ## Helpers -/

structure PackageInvader where
  name : ClassName
  /-- The package, which is empty for classes without one. -/
  package : String
  /-- Each held class with the field that holds it. -/
  fields : Table ClassName String
  deriving DecidableEq, Repr

namespace PackageInvader

def baseName (package project : String) : String :=
  let simple := "Ferrous$PackageInvader$" ++ project
  if package.isEmpty then simple else package ++ "/" ++ simple

def field? (invader : PackageInvader) (name : ClassName) : Option String :=
  invader.fields.find? name

end PackageInvader

/-- The place of a key in the registry. -/
structure KeySlot where
  field : String
  /-- Whether the key has a qualifier; if not, it is a generic type or an array. -/
  qualified : Bool
  deriving DecidableEq, Repr

namespace KeySlot

def ofKey? (key : Key) (index : Nat) : Option KeySlot :=
  let field := "key" ++ toString index
  if key.qualifier.isSome then some ⟨field, true⟩
  else if key.boxed.asClass?.isNone then some ⟨field, false⟩
  else none

end KeySlot

structure KeyRegistry where
  name : ClassName
  slots : Table Key KeySlot
  deriving DecidableEq, Repr

namespace KeyRegistry

def find? (registry : KeyRegistry) (key : Key) : Option KeySlot :=
  registry.slots.find? key.boxed

def isEmpty (registry : KeyRegistry) : Bool :=
  registry.slots.size = 0

def baseName (project : String) : String :=
  Vocabulary.keyRegistry.internal ++ "$" ++ project

end KeyRegistry

/-! ## The plan -/

structure Plan where
  byModule : Table ClassName (List Provider)
  byContract : Table ClassName (List Provider)
  /-- All providers, each name once, those of modules first. -/
  providers : List Provider
  invaders : List PackageInvader
  contracts : List (Id .contract)
  factories : List (Id .factory)
  registry : KeyRegistry
  deriving DecidableEq, Repr

namespace Plan

def invader? (plan : Plan) (package : String) : Option PackageInvader :=
  plan.invaders.find? fun invader => invader.package = package

def invaderField? (plan : Plan) (name : ClassName) : Option (PackageInvader × String) := do
  let invader ← plan.invader? name.packageName
  let field ← invader.field? name
  return (invader, field)

/-! ## Keys -/

def providerKeys (graph : ObjectGraph) (provider : Provider) : List Key :=
  (provider.key? graph).toList ++
    match provider.medium with
    | .provisionPoint point => point.injectees.map Dependency.key
    | .binding bound => [bound.implementation]
    | .getter contract _ _ => ((graph.contracts.get? contract).map Contract.key).toList
    | .factory _ => []
    | .contract _ => []

def contractKeys (contract : Contract) : List Key :=
  contract.key :: contract.getters.map fun getter => getter.injectee.key

def factoryKeys (factory : Factory) : List Key :=
  factory.key :: factory.methods.flatMap fun method =>
    (method.arguments.filterMap FactoryArgument.injected?).map Dependency.key

/-- Every key that generated code refers to, boxed, each where it is first referred to. -/
def collectKeys (graph : ObjectGraph) (providers : List Provider)
    (contracts : List (Id .contract)) (factories : List (Id .factory)) : List Key :=
  firsts id
    ((providers.flatMap (providerKeys graph) ++
      (contracts.filterMap graph.contracts.get?).flatMap contractKeys ++
      (factories.filterMap graph.factories.get?).flatMap factoryKeys).map Key.boxed)

end Plan

/-! ## Composing the helpers -/

/-- Whether a class is known and cannot be seen from other packages.  An unknown class counts as
public. -/
def ClassPath.isHidden (path : ClassPath) (name : ClassName) : Bool :=
  (path.find? name).any fun decl => !decl.isPublic

/-- The hidden classes that stand in the types of keys. -/
def ClassPath.hiddenClasses (path : ClassPath) (keys : List Key) : List ClassName :=
  ((keys.flatMap fun key => key.type.mentioned).filterMap Descriptor.asObject?).filter
    path.isHidden

/-- The classes with the fields `class0`, `class1` and so on. -/
def invaderFields (names : List ClassName) : Table ClassName String :=
  Table.ofList (names.zipIdx.map fun (name, index) => (name, "class" ++ toString index))

namespace Assigning

/-- One invader for each package with hidden classes. -/
def composeInvaders (path : ClassPath) (keys : List Key) : Assigning (List PackageInvader) := do
  let project := (← get).project
  let packages := Table.group ClassName.packageName (firsts id (path.hiddenClasses keys))
  packages.entries.mapM fun (package, names) => do
    let name ← takeName fun supply =>
      supply.uniqueOrIndexed (PackageInvader.baseName package project)
    return ⟨name, package, invaderFields names⟩

/-- Slots for the keys that need one; the number of a slot is the place of its key. -/
def composeRegistry (keys : List Key) : Assigning KeyRegistry := do
  let project := (← get).project
  let name ← takeName fun supply => supply.uniqueOrIndexed (KeyRegistry.baseName project)
  let slots := keys.zipIdx.filterMap fun (key, index) =>
    (KeySlot.ofKey? key index).map fun slot => (key, slot)
  return ⟨name, Table.ofList slots⟩

/-! ## Composing the plan -/

/-- The contracts that modules import, each with the laziness of its first import. -/
def importedContracts (modules : List Module) : List (Id .contract × Bool) :=
  firsts Prod.fst (modules.flatMap fun module =>
    module.imports.filterMap fun declared =>
      declared.contract?.map fun (id, _, lazy) => (id, lazy))

/-- The plan for everything in a graph that belongs to the current input.  What was compiled before
was generated then, and is only referred to. -/
def composePlan (path : ClassPath) (graph : ObjectGraph) : Assigning Plan := do
  let modules := graph.modules.items.filter fun module => path.isInput module.name
  let byModule ← modules.mapM fun module => do
    let providers ← ofModule graph module
    return (module.name, providers)
  let byContract ← ((importedContracts modules).filterMap fun (id, lazy) =>
    (graph.contracts.get? id).map fun contract => (id, contract, lazy)).mapM
      fun (id, contract, lazy) => do
        let providers ← ofImport id contract lazy
        return (contract.name, providers)
  let byModule := Table.ofList byModule
  let byContract := Table.ofList byContract
  let contracts := firsts id (modules.flatMap Module.contracts)
  let factories := (graph.factories.entries.filter fun (_, factory) =>
    path.isInput factory.name).map Prod.fst
  let providers := firsts Provider.name (byModule.values.flatten ++ byContract.values.flatten)
  let keys := Plan.collectKeys graph providers contracts factories
  let invaders ← composeInvaders path keys
  let registry ← composeRegistry keys
  Logged.debug "Composed generation helpers" [
    ("invaders", toString invaders.length),
    ("registry_keys", toString registry.slots.size)]
  Logged.info ("Assembled " ++ toString providers.length ++ " providers, " ++
    toString contracts.length ++ " contracts and " ++ toString factories.length ++
    " factories") []
  return {
    byModule := byModule
    byContract := byContract
    providers := providers
    invaders := invaders
    contracts := contracts
    factories := factories
    registry := registry }

end Assigning

end InjectionCompiler
