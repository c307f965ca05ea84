import InjectionCompiler.Cycle
import InjectionCompiler.ObjectGraph
import InjectionCompiler.Vocabulary

/-!
# The wiring of a container

What the effective modules of a container provide and require, and which keys have to be there
before which.  All keys are boxed.  A binding counts once for a container, however many modules it
is attached to, and so does an imported contract, however often it is imported.
-/

namespace InjectionCompiler

/-! ## Sources and requirers -/

inductive Source where
  | injector
  | provisionPoint (point : ProvisionPoint) (module : ClassName)
  | declaredBinding (binding : Binding) (module : ClassName)
  | hostedFactory (name module : ClassName)
  | hostedContract (name module : ClassName)
  | importedContract (name : ClassName) (site : ImportSite)
  | importedGetter (getter : Getter) (site : ImportSite)
  deriving DecidableEq, Repr

def Source.display : Source → String
  | .injector => "built-in injector"
  | .provisionPoint point module => point.display ++ " in module " ++ module.display
  | .declaredBinding binding module =>
      "binding " ++ binding.display ++ " in module " ++ module.display
  | .hostedFactory name module => "factory " ++ name.display ++ " in module " ++ module.display
  | .hostedContract name module => "contract " ++ name.display ++ " in module " ++ module.display
  | .importedContract name site => "contract " ++ name.display ++ " imported by " ++ site.display
  | .importedGetter getter site =>
      getter.owner.display ++ "." ++ getter.method ++ " imported by " ++ site.display

inductive Requirer where
  | provisionPoint (point : ProvisionPoint)
  | declaredBinding (binding : Binding)
  | factoryMethod (factory : ClassName) (method : String)
  | getter (owner : ClassName) (method : String)
  deriving DecidableEq, Repr

def Requirer.display : Requirer → String
  | .provisionPoint point => point.display
  | .declaredBinding binding => "binding " ++ binding.display
  | .factoryMethod factory method => factory.display ++ "." ++ method
  | .getter owner method => owner.display ++ "." ++ method

/-! ## Wirings -/

structure Wiring where
  provided : List (Key × Source)
  required : List (Key × Requirer)
  /-- The first key cannot be made before the second. -/
  edges : List (Key × Key)
  deriving DecidableEq, Repr

namespace Wiring

instance : EmptyCollection Wiring := ⟨⟨[], [], []⟩⟩

instance : Append Wiring :=
  ⟨fun a b => ⟨a.provided ++ b.provided, a.required ++ b.required, a.edges ++ b.edges⟩⟩

def join (wirings : List Wiring) : Wiring :=
  ⟨wirings.flatMap provided, wirings.flatMap required, wirings.flatMap edges⟩

def provide (key : Key) (source : Source) : Wiring :=
  ⟨[(key.boxed, source)], [], []⟩

def require (dependency : Dependency) (requirer : Requirer) : Wiring :=
  ⟨[], [(dependency.key.boxed, requirer)], []⟩

/-- What `dependent` needs at once has to be there before it; what is deferred does not. -/
def order (dependent : Key) (dependency : Dependency) : Wiring :=
  if dependency.delivery.isDeferred then ∅
  else ⟨[], [], [(dependent.boxed, dependency.key.boxed)]⟩

/-! ## The parts of a module -/

def ofPoint (module : ClassName) (point : ProvisionPoint) : Wiring :=
  provide point.key (.provisionPoint point module) ++
    join (point.injectees.map fun injectee =>
      require injectee (.provisionPoint point) ++ order point.key injectee)

def ofBinding (module : ClassName) (binding : Binding) : Wiring :=
  let implementation := Dependency.direct binding.implementation
  provide binding.ancestor (.declaredBinding binding module) ++
    require implementation (.declaredBinding binding) ++
    order binding.ancestor implementation

def ofFactory (module : ClassName) (factory : Factory) : Wiring :=
  provide factory.key (.hostedFactory factory.name module) ++
    join (factory.methods.map fun method =>
      join ((method.arguments.filterMap FactoryArgument.injected?).map fun dependency =>
        require dependency (.factoryMethod factory.name method.method)))

def ofContract (module : ClassName) (contract : Contract) : Wiring :=
  provide contract.key (.hostedContract contract.name module) ++
    join (contract.getters.map fun getter =>
      require getter.injectee (.getter getter.owner getter.method) ++
        order contract.key getter.injectee)

def ofImport (contract : Contract) (site : ImportSite) : Wiring :=
  provide contract.key (.importedContract contract.name site) ++
    join (contract.getters.map fun getter =>
      provide getter.injectee.key (.importedGetter getter site))

/-- A module with those of its bindings and contract imports that are new to the container. -/
def ofModule (graph : ObjectGraph) (module : Module) (bindings : List Binding)
    (imports : List (Id .contract × ImportSite)) : Wiring :=
  join (module.provisionPoints.map (ofPoint module.name)) ++
    join (bindings.map (ofBinding module.name)) ++
    join ((graph.hostedFactories module).map (ofFactory module.name)) ++
    join ((graph.hostedContracts module).map (ofContract module.name)) ++
    join (imports.filterMap fun (id, site) =>
      (graph.contracts.get? id).map fun contract => ofImport contract site)

/-! ## The whole container -/

def contractImports (module : Module) : List (Id .contract × ImportSite) :=
  module.imports.filterMap fun declared =>
    declared.contract?.map fun (id, site, _) => (id, site)

def ofModules (graph : ObjectGraph) (bindings : List Binding) (contracts : List (Id .contract)) :
    List Module → Wiring
  | [] => ∅
  | module :: modules =>
      let freshBindings := firstsFrom id bindings module.bindings
      let freshImports := firstsFrom Prod.fst contracts (contractImports module)
      ofModule graph module freshBindings freshImports ++
        ofModules graph (bindings ++ freshBindings) (contracts ++ freshImports.map Prod.fst) modules

/-- The wiring of the container whose own module is `root`. -/
def ofRoot (graph : ObjectGraph) (root : Id .module) : Wiring :=
  provide (.ofClass Vocabulary.injector) .injector ++
    ofModules graph [] [] (graph.effectiveModules root)

/-! ## Questions -/

def resolves (wiring : Wiring) (key : Key) : Bool :=
  (wiring.provided.map Prod.fst).contains key.boxed

def sources (wiring : Wiring) : List (Key × List Source) :=
  (Table.group Prod.fst wiring.provided).entries.map fun (key, entries) =>
    (key, entries.map Prod.snd)

def duplicates (wiring : Wiring) : List (Key × List Source) :=
  wiring.sources.filter fun entry => entry.2.length > 1

/-- Keys that are required and have no source, with all that require them. -/
def unresolved (wiring : Wiring) : List (Key × List Requirer) :=
  ((Table.group Prod.fst wiring.required).entries.filter fun entry =>
    !wiring.resolves entry.1).map fun (key, entries) => (key, entries.map Prod.snd)

/-- Keys that have to be there before themselves. -/
def cycles (wiring : Wiring) : List (List Key) :=
  Cycle.cycles wiring.edges

end Wiring

end InjectionCompiler
