import InjectionCompiler.Key

/-!
# Contracts

A contract is an interface of getters through which the outside world asks a container for
instances.
-/

namespace InjectionCompiler

structure Getter where
  owner : ClassName
  method : String
  injectee : Dependency
  deriving DecidableEq, Repr

structure Contract where
  name : ClassName
  implementation : ClassName
  key : Key
  getters : List Getter
  deriving DecidableEq, Repr

def contractImplementation (name : ClassName) (project : String) : ClassName :=
  name.append ("$Ferrous$Contract$" ++ project)

end InjectionCompiler
