import InjectionCompiler.Contract.Discovery

/-!
# Containers

Modules, components and contract configurations can all host sources and imports.  This module
tells which classes they are, and finds the roots among all known classes.
-/

namespace InjectionCompiler

/-- Whether a class configures a contract, which its super class tells. -/
def ClassDecl.isConfiguration (decl : ClassDecl) : Bool :=
  decl.superClass = some Vocabulary.contractConfiguration

def ClassDecl.isContainer (decl : ClassDecl) : Bool :=
  decl.isAnnotated Vocabulary.moduleMark || decl.isAnnotated Vocabulary.component ||
    decl.isConfiguration

namespace ClassPath

def isContainer (path : ClassPath) (name : ClassName) : Bool :=
  (path.find? name).any ClassDecl.isContainer

/-- What is compiled in this run may only be hosted by containers of this run. -/
def isForeignHost (path : ClassPath) (hosted container : ClassName) : Bool :=
  path.isInput hosted && !path.isInput container

/-! ## Contract configurations -/

def readConfiguredContract (decl : ClassDecl) : Logged (Option ClassName) := do
  let invalidBase := fun (shown : String) =>
    Logged.report ("Invalid base class of " ++ decl.name.display ++ ": " ++ shown)
  match decl.genericSuper with
  | none =>
      invalidBase Vocabulary.contractConfiguration.display
      return none
  | some (.applied raw [argument]) =>
      if raw ≠ Vocabulary.contractConfiguration then
        invalidBase (Signature.applied raw [argument]).display
        return none
      match argument with
      | .erased (.object contract) => return some contract
      | .erased other =>
          .report ("ContractConfiguration " ++ decl.name.display ++
            " contains a non-class type: " ++ other.display)
          return none
      | other =>
          .report ("ContractConfiguration " ++ decl.name.display ++
            " contains a generic type: " ++ other.display)
          return none
  | some other =>
      invalidBase other.display
      return none

/-! ## Roots -/

structure Roots where
  components : List ClassName
  configurations : List (ClassName × Id .contract)
  deriving DecidableEq, Repr

def readComponent (decl : ClassDecl) : Logged (Option ClassName) := do
  if !decl.isAnnotated Vocabulary.component then
    return none
  if decl.typeParameters.isEmpty then
    .debug ("Component: " ++ decl.name.display) []
    return some decl.name
  .report ("Component cannot have a type parameters: " ++ decl.name.display)
  return none

def readConfiguration (path : ClassPath) (project : String) (decl : ClassDecl) :
    BookWork (Option (ClassName × Id .contract)) := do
  if !decl.isConfiguration then
    return none
  if !decl.typeParameters.isEmpty then
    Logged.report ("Contract configuration cannot have type parameters: " ++ decl.name.display)
    return none
  let some contract ← readConfiguredContract decl | return none
  Logged.debug ("Contract configuration: " ++ decl.name.display ++ " -> " ++ contract.display) []
  let id ← path.readContract project contract
  return some (decl.name, id)

def readRoots (path : ClassPath) (project : String) : BookWork Roots := do
  let roots ← path.decls.mapM fun decl => do
    let component ← readComponent decl
    let configuration ← path.readConfiguration project decl
    return (component, configuration)
  return ⟨roots.filterMap Prod.fst, roots.filterMap Prod.snd⟩

end ClassPath

end InjectionCompiler
