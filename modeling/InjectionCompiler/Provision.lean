import InjectionCompiler.Key

/-!
# Provision points

A provision point is one source of instances for one key: the constructor of the provided class
itself, or a method or a field of a module.
-/

namespace InjectionCompiler

inductive Scope where
  /-- Each request gets an instance of its own. -/
  | unscoped
  /-- One instance is kept as the scope's annotation tells; an eager one is made together with its
  container. -/
  | scoped (marker : ClassName) (eager : Bool)
  deriving DecidableEq, Repr

/-- Where the instances of a provision point come from. -/
inductive Origin where
  | constructor (injectees : List Dependency)
  | method (name : String) (injectees : List Dependency)
  | field (name : String)
  deriving DecidableEq, Repr

structure ProvisionPoint where
  /-- The declaring module, and for a constructor the provided class. -/
  owner : ClassName
  key : Key
  scope : Scope
  origin : Origin
  deriving DecidableEq, Repr

namespace ProvisionPoint

/-- What has to be there before an instance can be made. -/
def injectees (point : ProvisionPoint) : List Dependency :=
  match point.origin with
  | .constructor injectees => injectees
  | .method _ injectees => injectees
  | .field _ => []

def display (point : ProvisionPoint) : String :=
  match point.origin with
  | .constructor _ => point.owner.display ++ "()"
  | .method name _ => point.owner.display ++ "." ++ name
  | .field name => point.owner.display ++ "." ++ name

end ProvisionPoint

end InjectionCompiler
