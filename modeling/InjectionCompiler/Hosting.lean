import InjectionCompiler.Container
import InjectionCompiler.InjectionTarget
import InjectionCompiler.Module

/-!
# Hosting

A module names the containers that import it, and a class, a factory or a contract names the
containers that host it.  Both are declared away from the container, so they are gathered here by
container before any module is read.
-/

namespace InjectionCompiler

/-- What is declared for each container from outside, in the order of the declarations. -/
structure Hosting where
  importedBy : List (ClassName × ClassName)
  targets : List (ClassName × ClassName)
  factories : List (ClassName × Id .factory)
  contracts : List (ClassName × Id .contract)
  deriving DecidableEq, Repr

def hostedBy {α : Type} (declared : List (ClassName × α)) (container : ClassName) : List α :=
  (declared.filter fun entry => entry.1 = container).map Prod.snd

namespace ClassPath

def readImporter (path : ClassPath) (module : ClassName) (entry : Literal) :
    Logged (Option ClassName) := do
  match entry with
  | .type (.object importer) =>
      if !path.isContainer importer then
        .report ("Module " ++ module.display ++ " is imported by " ++ importer.display ++
          ", which isn't a container")
        return none
      if path.isForeignHost module importer then
        .report ("Module " ++ module.display ++ " is imported by " ++ importer.display ++
          ", which doesn't belong to current inputs")
        return none
      return some importer
  | _ =>
      .report ("A non-class type is specified in @ImportedBy annotation for " ++ module.display)
      return none

/-- The containers that import a module by its own declaration. -/
def readImporters (path : ClassPath) (decl : ClassDecl) : Logged (List ClassName) := do
  match annotationList? decl.annotations Vocabulary.importedBy with
  | none => return []
  | some [] =>
      .report ("Module " ++ decl.name.display ++ " should be imported by at least one container")
      return []
  | some entries =>
      let importers ← entries.mapM (path.readImporter decl.name)
      return importers.filterMap id

def readHost (path : ClassPath) (name : ClassName) (entry : Literal) :
    Logged (Option ClassName) := do
  match entry with
  | .type (.object container) =>
      if !path.isContainer container then
        .report (name.display ++ " is provided by " ++ container.display ++
          ", which isn't a container")
        return none
      if path.isForeignHost name container then
        .report (name.display ++ " is provided by " ++ container.display ++
          ", which doesn't belong to current inputs")
        return none
      return some container
  | _ =>
      .report ("A non-class type is specified in @ProvidedBy annotation for " ++ name.display)
      return none

def readHosts (path : ClassPath) (name : ClassName) : Work (List ClassName) := do
  let some decl := path.find? name | throw (.classNotFound name)
  match annotationList? decl.annotations Vocabulary.providedBy with
  | none => return []
  | some [] =>
      Logged.report ("@ProvidedBy should contain at least one container: " ++ name.display)
      return []
  | some entries =>
      let hosts ← entries.mapM fun entry => path.readHost name entry
      return hosts.filterMap id

def readHosted {α : Type} (path : ClassPath) (entities : List (ClassName × α)) :
    Work (List (ClassName × α)) := do
  let hosted ← entities.mapM fun (name, entity) => do
    let hosts ← path.readHosts name
    return hosts.map fun host => (host, entity)
  return hosted.flatten

def readHosting (path : ClassPath) (providable : List InjectionTarget)
    (factories : Arena .factory Factory) (contracts : Arena .contract Contract) :
    Work Hosting := do
  let modules := path.decls.filter (·.isAnnotated Vocabulary.moduleMark)
  let importedBy ← modules.mapM fun decl => do
    let importers ← path.readImporters decl
    return importers.map fun importer => (importer, decl.name)
  let targets ← path.readHosted (providable.map fun target => (target.name, target.name))
  let factories ← path.readHosted
    (factories.entries.map fun (id, factory) => (factory.name, id))
  let contracts ← path.readHosted
    (contracts.entries.map fun (id, contract) => (contract.name, id))
  return ⟨importedBy.flatten, targets, factories, contracts⟩

end ClassPath

end InjectionCompiler
