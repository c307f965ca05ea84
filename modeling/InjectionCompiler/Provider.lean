import InjectionCompiler.ObjectGraph

/-!
# Providers

A provider is a generated class that makes the instances of exactly one source.
-/

namespace InjectionCompiler

/-- Where a provider gets its instances from. -/
inductive Medium where
  | provisionPoint (point : ProvisionPoint)
  /-- Whatever provides the implementation of the binding. -/
  | binding (binding : Binding)
  | factory (id : Id .factory)
  | contract (id : Id .contract)
  /-- A getter of an imported contract. -/
  | getter (contract : Id .contract) (lazy : Bool) (getter : Getter)
  deriving DecidableEq, Repr

structure Provider where
  name : ClassName
  medium : Medium
  deriving DecidableEq, Repr

def Medium.display : Medium → String
  | .provisionPoint point => "provision point " ++ point.display
  | .binding bound => "binding " ++ bound.display
  | .factory id => "factory " ++ id.display
  | .contract id => "contract " ++ id.display
  | .getter _ lazy served =>
      (if lazy then "lazy " else "") ++ "contract method " ++ served.owner.display ++ "." ++
        served.method

/-- The key under which a provider is known.  A factory or contract out of range has none. -/
def Provider.key? (provider : Provider) (graph : ObjectGraph) : Option Key :=
  match provider.medium with
  | .provisionPoint point => some point.key
  | .binding bound => some bound.ancestor
  | .factory id => (graph.factories.get? id).map Factory.key
  | .contract id => (graph.contracts.get? id).map Contract.key
  | .getter _ _ served => some served.injectee.key

end InjectionCompiler
