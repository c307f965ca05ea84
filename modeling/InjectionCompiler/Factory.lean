import InjectionCompiler.Key

/-!
# Factories

A factory is an interface whose methods build instances out of injected dependencies and of
arguments given by the caller.
-/

namespace InjectionCompiler

/-- Where an argument of the constructor comes from. -/
inductive FactoryArgument where
  | injected (dependency : Dependency)
  /-- The argument of the factory method at the given place. -/
  | passed (dependency : Dependency) (index : Nat)
  deriving DecidableEq, Repr

namespace FactoryArgument

def dependency : FactoryArgument → Dependency
  | .injected dependency => dependency
  | .passed dependency _ => dependency

def injected? : FactoryArgument → Option Dependency
  | .injected dependency => some dependency
  | .passed _ _ => none

end FactoryArgument

structure FactoryMethod where
  owner : ClassName
  method : String
  returns : ClassName
  implementation : ClassName
  arguments : List FactoryArgument
  deriving DecidableEq, Repr

structure Factory where
  name : ClassName
  implementation : ClassName
  key : Key
  methods : List FactoryMethod
  deriving DecidableEq, Repr

def factoryImplementation (name : ClassName) : ClassName :=
  name.append "$Ferrous$Factory"

end InjectionCompiler
