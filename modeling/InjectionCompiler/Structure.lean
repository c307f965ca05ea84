import InjectionCompiler.Factory.Discovery
import InjectionCompiler.ObjectGraph

/-!
# Structural faults

Faults of single classes that show only when the whole graph is known: super classes of modules,
static injection, abstract classes, factory interfaces, and the types that bindings relate.  Each
check answers the messages of the faults it finds.
-/

namespace InjectionCompiler

namespace ClassPath

def moduleFaults (path : ClassPath) (module : Module) : List String :=
  match path.find? module.name with
  | none => []
  | some decl =>
      let parent :=
        match decl.superClass with
        | some parent =>
            if parent ≠ .object ∧ parent ≠ Vocabulary.contractConfiguration then
              [module.name.display ++ " has a super type of " ++ parent.display ++
                " instead of " ++ ClassName.object.display ++ " or " ++
                Vocabulary.contractConfiguration.display]
            else []
        | none => []
      let constructor :=
        if decl.isAnnotated Vocabulary.importedBy ∧ ¬ decl.hasDefaultConstructor then
          ["Module " ++ module.name.display ++
            " with @ImportedBy annotation must have a default constructor"]
        else []
      parent ++ constructor

def staticFault (point : InjectionPoint) : String :=
  match point with
  | .field _ _ _ => "Static field injection is not supported yet: " ++ point.display
  | .method _ _ _ => "Static method injection is not supported yet: " ++ point.display

def staticFaults (target : InjectionTarget) : List String :=
  (target.points.filter InjectionPoint.isStatic).map staticFault

def abstractFaults (path : ClassPath) (name : ClassName) : List String :=
  match path.find? name with
  | some decl =>
      if decl.isInterface || decl.isAbstract then
        ["Providable class cannot be interface/abstract: " ++ name.display]
      else []
  | none => []

/-! ## Factories -/

def factoryClassFaults (path : ClassPath) (name : ClassName) : List String :=
  match path.find? name with
  | none => []
  | some decl =>
      let fault := fun (broken : Bool) (rest : String) =>
        if broken then ["Factory " ++ name.display ++ rest] else []
      fault (!decl.isInterface) " must be an interface" ++
        fault (!decl.typeParameters.isEmpty) " mustn't contain generic parameters" ++
        fault (path.factoryMethods decl).isEmpty " must contain at least one method"

/-- A method has to return the class that it builds or an ancestor of it. -/
def factoryMethodFaults (path : ClassPath) (factory : Factory) (method : FactoryMethod) :
    List String :=
  if method.returns = method.implementation ∨
      method.returns ∈ path.ancestors method.implementation then []
  else
    ["Method " ++ factory.name.display ++ "." ++ method.method ++ " returns " ++
      method.returns.display ++ " which isn't an ancestor of " ++ method.implementation.display ++
      " from the @Factory.Return annotation"]

def factoryFaults (path : ClassPath) (factory : Factory) : List String :=
  path.factoryClassFaults factory.name ++
    factory.methods.flatMap (path.factoryMethodFaults factory)

/-! ## Bindings -/

def isGeneric (path : ClassPath) (name : ClassName) : Bool :=
  (path.find? name).any fun decl => !decl.typeParameters.isEmpty

def hasInjectedConstructor (path : ClassPath) (name : ClassName) : Bool :=
  (path.find? name).any fun decl => decl.constructors.any (·.isAnnotated Vocabulary.inject)

/-- The faults of a binding between two plain classes. -/
def classBindingFaults (path : ClassPath) (host ancestor : ClassName) : List String :=
  if host = ancestor then
    ["@ProvidedAs bindings cannot have a host class " ++ host.display ++ " as an argument"]
  else if path.isGeneric host then
    ["@ProvidedAs bindings aren't supported for a generic type " ++ host.display]
  else if path.isGeneric ancestor then
    ["@ProvidedAs bindings cannot have a generic type " ++ ancestor.display ++ " as an argument"]
  else
    let injected :=
      if path.hasInjectedConstructor ancestor then
        ["@ProvidedAs binding's argument " ++ ancestor.display ++
          " cannot have an @Inject constructor"]
      else []
    let unrelated :=
      if ancestor ∈ path.ancestors host then []
      else
        ["@ProvidedAs binding's argument " ++ ancestor.display ++
          " isn't a super type of the host class " ++ host.display]
    injected ++ unrelated

def bindingFaults (path : ClassPath) (binding : Binding) : List String :=
  match binding.implementation.asClass?, binding.ancestor.asClass? with
  | some host, some ancestor => path.classBindingFaults host ancestor
  | _, _ => []

def configurationFaults (path : ClassPath) (configuration : ContractConfiguration) :
    List String :=
  if (path.find? configuration.name).any fun decl => !decl.isInterface && !decl.isAbstract then []
  else
    ["Contract configuration " ++ configuration.name.display ++ " should be a concrete class"]

/-! ## All of them -/

def structuralFaults (path : ClassPath) (graph : ObjectGraph) : List String :=
  graph.modules.items.flatMap path.moduleFaults ++
    graph.injectable.flatMap staticFaults ++
    graph.providable.flatMap (fun target =>
      staticFaults target ++ path.abstractFaults target.name) ++
    graph.factories.items.flatMap path.factoryFaults ++
    graph.bindings.flatMap path.bindingFaults ++
    graph.configurations.flatMap path.configurationFaults

end ClassPath

end InjectionCompiler
