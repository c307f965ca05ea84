import InjectionCompiler.Arena
import InjectionCompiler.Contract
import InjectionCompiler.Factory
import InjectionCompiler.Provision

/-!
# Modules

A module hosts sources of instances and imports other modules and contracts.  Components and
contract configurations are modules as well; theirs is the root of what they provide.
-/

namespace InjectionCompiler

inductive ImportSite where
  | method (owner : ClassName) (name : String)
  | field (owner : ClassName) (name : String)
  | importedBy (importer importee : ClassName)
  deriving DecidableEq, Repr

def ImportSite.display : ImportSite → String
  | .method owner name => owner.display ++ "." ++ name ++ "()"
  | .field owner name => owner.display ++ "." ++ name
  | .importedBy importer importee =>
      "@ImportedBy(" ++ importer.display ++ ") on " ++ importee.display

inductive Import where
  | module (target : Id .module) (site : ImportSite)
  /-- A lazily imported contract is made on first use. -/
  | contract (target : Id .contract) (site : ImportSite) (lazy : Bool)
  deriving DecidableEq, Repr

namespace Import

def site : Import → ImportSite
  | .module _ site => site
  | .contract _ site _ => site

def module? : Import → Option (Id .module)
  | .module target _ => some target
  | .contract _ _ _ => none

def contract? : Import → Option (Id .contract × ImportSite × Bool)
  | .module _ _ => none
  | .contract target site lazy => some (target, site, lazy)

end Import

structure Module where
  name : ClassName
  imports : List Import
  provisionPoints : List ProvisionPoint
  bindings : List Binding
  factories : List (Id .factory)
  contracts : List (Id .contract)
  deriving DecidableEq, Repr

namespace Module

def empty (name : ClassName) : Module :=
  ⟨name, [], [], [], [], []⟩

def importedModules (module : Module) : List (Id .module) :=
  module.imports.filterMap Import.module?

end Module

end InjectionCompiler
