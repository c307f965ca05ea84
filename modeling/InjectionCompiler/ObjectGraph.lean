import InjectionCompiler.InjectionTarget
import InjectionCompiler.Module
import InjectionCompiler.Search

/-!
# The object graph

Everything that is known of the modules, contracts and factories of a run.  The effective modules
of a container are the container's own module and all that it imports, directly or through other
modules, nearest first and each once.
-/

namespace InjectionCompiler

/-! ## Containers -/

/-- A root of member injection. -/
structure Component where
  name : ClassName
  module : Id .module
  deriving DecidableEq, Repr

/-- A root that serves exactly one contract. -/
structure ContractConfiguration where
  name : ClassName
  contract : Id .contract
  module : Id .module
  deriving DecidableEq, Repr

inductive ContainerKind where
  | component
  | configuration
  deriving DecidableEq, Repr

def ContainerKind.display : ContainerKind → String
  | .component => "component"
  | .configuration => "contract"

structure Container where
  name : ClassName
  kind : ContainerKind
  module : Id .module
  deriving DecidableEq, Repr

/-! ## The graph -/

structure ObjectGraph where
  modules : Arena .module Module
  contracts : Arena .contract Contract
  factories : Arena .factory Factory
  components : List Component
  configurations : List ContractConfiguration
  /-- Classes with fields or methods that are to be injected. -/
  injectable : List InjectionTarget
  /-- Classes with a constructor that is to be injected. -/
  providable : List InjectionTarget
  bindings : List Binding
  deriving DecidableEq, Repr

namespace ObjectGraph

instance : Inhabited ObjectGraph := ⟨∅, ∅, ∅, [], [], [], [], []⟩

def containers (graph : ObjectGraph) : List Container :=
  graph.components.map (fun component => ⟨component.name, .component, component.module⟩) ++
    graph.configurations.map fun configuration =>
      ⟨configuration.name, .configuration, configuration.module⟩

def providable? (graph : ObjectGraph) (name : ClassName) : Option InjectionTarget :=
  graph.providable.find? fun target => target.name = name

def hostedFactories (graph : ObjectGraph) (module : Module) : List Factory :=
  module.factories.filterMap graph.factories.get?

def hostedContracts (graph : ObjectGraph) (module : Module) : List Contract :=
  module.contracts.filterMap graph.contracts.get?

/-! ## Effective modules -/

def importedModules (graph : ObjectGraph) (id : Id .module) : List (Id .module) :=
  match graph.modules.get? id with
  | some module => module.importedModules
  | none => []

def allImportedModules (graph : ObjectGraph) : List (Id .module) :=
  graph.modules.items.flatMap Module.importedModules

theorem mem_allImportedModules {graph : ObjectGraph} {id imported : Id .module}
    (h : imported ∈ graph.importedModules id) : imported ∈ graph.allImportedModules := by
  unfold importedModules at h
  split at h
  · next module hmodule =>
      exact List.mem_flatMap.2 ⟨module, List.mem_of_getElem? hmodule, h⟩
  · cases h

def importSpace (graph : ObjectGraph) : SearchSpace (Id .module) where
  next := graph.importedModules
  bound := graph.allImportedModules
  closed := mem_allImportedModules

/-- The ids of the effective modules below `root`, which comes first. -/
def effectiveIds (graph : ObjectGraph) (root : Id .module) : List (Id .module) :=
  graph.importSpace.reach root

def effectiveModules (graph : ObjectGraph) (root : Id .module) : List Module :=
  (graph.effectiveIds root).filterMap graph.modules.get?

/-! ## Changing a graph

Whoever holds a graph may change it before it is compiled, also into one that no class path gives.
-/

/-- Adds a binding to a module; a name that no module bears changes nothing. -/
def attachBinding (graph : ObjectGraph) (module : ClassName) (binding : Binding) : ObjectGraph :=
  match graph.modules.find? module with
  | some id =>
      { graph with
        modules := graph.modules.modify id fun module =>
          { module with bindings := module.bindings ++ [binding] } }
  | none => graph

def declareBinding (graph : ObjectGraph) (binding : Binding) : ObjectGraph :=
  { graph with bindings := graph.bindings ++ [binding] }

end ObjectGraph

end InjectionCompiler
