import InjectionCompiler.Factory.Discovery
import InjectionCompiler.InjectionTarget.Discovery
import InjectionCompiler.Module.Discovery
import InjectionCompiler.ObjectGraph

/-!
# Building the object graph

Reads the whole class path in one go.  A fault in a class is reported, and reading goes on; only a
class that is referred to and not known stops the work.
-/

namespace InjectionCompiler

namespace ClassPath

structure MarkedClasses where
  factories : Arena .factory Factory
  modules : List ClassName

def readMarked (path : ClassPath) (project : String) (decl : ClassDecl) :
    BookWork (Option Factory) := do
  let factory ←
    if decl.isAnnotated Vocabulary.factory then do
      let factory ← path.readFactory decl
      pure (some factory)
    else
      pure none
  if decl.isAnnotated Vocabulary.contract then
    let _ ← path.readContract project decl.name
  return factory

def readMarkedClasses (path : ClassPath) (project : String) : BookWork MarkedClasses := do
  let factories ← path.decls.mapM (path.readMarked project)
  let table := Table.ofList ((factories.filterMap id).map fun factory => (factory.name, factory))
  let modules := path.decls.filter (·.isAnnotated Vocabulary.moduleMark)
  return ⟨⟨table⟩, modules.map ClassDecl.name⟩

def readGraphFrom (path : ClassPath) (project : String) : BookWork ObjectGraph := do
  Logged.info ("Analyzing " ++ toString path.names.length ++ " types") []
  let targets ← path.readTargets
  let bindings ← path.readBindings
  let marked ← path.readMarkedClasses project
  let hosting ← path.readHosting targets.providable marked.factories (← get).contracts
  let roots ← path.readRoots project
  let sources : ModuleSources := {
    project := project
    hosting := hosting
    bindings := bindings
    providable := targets.providable
    factories := marked.factories
    configured := roots.configurations }
  let modules ← path.readModules sources
    (roots.components ++ roots.configurations.map Prod.fst ++ marked.modules)
  let book ← get
  let graph : ObjectGraph := {
    modules := modules
    contracts := book.contracts
    factories := marked.factories
    components := roots.components.filterMap fun name =>
      (modules.find? name).map fun id => ⟨name, id⟩
    configurations := roots.configurations.filterMap fun (name, contract) =>
      (modules.find? name).map fun id => ⟨name, contract, id⟩
    injectable := targets.injectable
    providable := targets.providable
    bindings := bindings.all }
  Logged.debug "Analysis finished" [
    ("modules", toString graph.modules.size),
    ("contracts", toString graph.contracts.size),
    ("factories", toString graph.factories.size)]
  Logged.info ("Found " ++ toString graph.components.length ++ " components and " ++
    toString graph.configurations.length ++ " contract configurations") []
  return graph

def readGraph (path : ClassPath) (project : String) : Work ObjectGraph := do
  let (graph, _) ← (path.readGraphFrom project).run ∅
  return graph

end ClassPath

end InjectionCompiler
