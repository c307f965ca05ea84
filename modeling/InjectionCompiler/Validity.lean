import InjectionCompiler.Journal
import InjectionCompiler.Structure
import InjectionCompiler.Wiring

/-!
# Valid graphs

A graph is fit for generation when no fault is found in it: no structural fault, and in no container
a key with several sources, a required key without one, or a cycle of keys that need each other at
once.
-/

namespace InjectionCompiler

/-! ## Containers -/

namespace Container

def title (container : Container) : String :=
  container.kind.display ++ " " ++ container.name.display

def numbered (lines : List String) : List String :=
  lines.zipIdx.map fun (line, index) => toString (index + 1) ++ ". " ++ line

def duplicateFault (container : Container) (key : Key) (sources : List Source) : String :=
  "Dependency " ++ key.display ++ " provided multiple times in a single " ++
    container.kind.display ++ " hierarchy " ++ container.name.display ++ ":\n" ++
    "\n".intercalate (numbered (sources.map Source.display))

def missingFault (container : Container) (key : Key) (requirers : List Requirer) : String :=
  "Missing dependency " ++ key.display ++ " in " ++ container.title ++ ", required by:\n  " ++
    "\n  ".intercalate (requirers.map Requirer.display)

def cycleFault (container : Container) (cycle : List Key) : String :=
  "Dependency cycle in " ++ container.title ++ ":\n  " ++
    "\n  ".intercalate (cycle.map Key.display)

/-- The faults in the wiring of a container.  Cycles are looked for on demand. -/
def faults (container : Container) (wiring : Wiring) (checkCycles : Bool) : List String :=
  (wiring.duplicates.map fun (key, sources) => container.duplicateFault key sources) ++
    (wiring.unresolved.map fun (key, requirers) => container.missingFault key requirers) ++
    (if checkCycles then wiring.cycles.map container.cycleFault else [])

end Container

namespace ObjectGraph

def wirings (graph : ObjectGraph) : List (Container × Wiring) :=
  graph.containers.map fun container => (container, Wiring.ofRoot graph container.module)

/-! ## Bindings -/

/-- A binding takes effect only in the modules it is attached to. -/
def isAttached (graph : ObjectGraph) (binding : Binding) : Bool :=
  graph.modules.items.any fun module => module.bindings.contains binding

def unattachedFaults (graph : ObjectGraph) : List String :=
  (graph.bindings.filter fun binding => !graph.isAttached binding).map fun binding =>
    "Invalid configuration for dependency: " ++ binding.ancestor.display ++ ". " ++
      binding.implementation.display ++ " isn't provided by any module"

/-! ## Injection targets -/

def leftOver (target : InjectionTarget) (wiring : Wiring) : List Dependency :=
  target.dependencies.filter fun dependency => !wiring.resolves dependency.key

/-- A candidate joins those that leave as many dependencies, and takes the place of those that leave
more. -/
def keepBest (best : List (Container × List Dependency)) (candidate : Container × List Dependency) :
    List (Container × List Dependency) :=
  match best with
  | [] => [candidate]
  | first :: _ =>
      if first.2.length < candidate.2.length then best
      else if candidate.2.length < first.2.length then [candidate]
      else best ++ [candidate]

/-- Goes on from the best candidates so far.  There are none once a component serves the target. -/
def searchCandidates (target : InjectionTarget) (best : List (Container × List Dependency)) :
    List (Container × Wiring) → List (Container × List Dependency)
  | [] => best
  | (container, wiring) :: rest =>
      let dependencies := leftOver target wiring
      if dependencies.isEmpty then []
      else searchCandidates target (keepBest best (container, dependencies)) rest

/-- The components that come closest to serving a target that none of them serves. -/
def bestCandidates (components : List (Container × Wiring)) (target : InjectionTarget) :
    List (Container × List Dependency) :=
  searchCandidates target [] components

def targetFault (target : InjectionTarget) (candidates : List (Container × List Dependency)) :
    String :=
  "Dependencies of " ++ target.name.display ++
    " cannot be fully resolved by any component\n" ++
    "Best candidates and unresolved dependencies:" ++
    String.join (candidates.map fun (container, dependencies) =>
      "\n  " ++ container.name.display ++
        String.join (dependencies.map fun dependency => "\n    " ++ dependency.display))

/-- Targets that cannot be provided are injected by a component, so some component has to resolve
all they need. -/
def targetFaults (graph : ObjectGraph) (wirings : List (Container × Wiring)) : List String :=
  let components := wirings.filter fun entry =>
    graph.components.any fun component => component.name = entry.1.name
  let targets := graph.injectable.filter fun target => (graph.providable? target.name).isNone
  targets.filterMap fun target =>
    match bestCandidates components target with
    | [] => none
    | candidates => some (targetFault target candidates)

end ObjectGraph

/-! ## The whole graph -/

/-- Reports every fault of a graph. -/
def ClassPath.validate (path : ClassPath) (graph : ObjectGraph) (checkCycles : Bool) :
    Logged Unit := do
  let wirings := graph.wirings
  let structural := path.structuralFaults graph
  let containers := wirings.map fun (container, wiring) =>
    (container, container.faults wiring checkCycles)
  let unattached := graph.unattachedFaults
  let targets := graph.targetFaults wirings
  structural.forM Logged.report
  containers.forM fun (container, faults) => do
    .debug ("Validating " ++ container.title) []
    faults.forM Logged.report
  unattached.forM Logged.report
  targets.forM Logged.report
  let count := structural.length + (containers.flatMap Prod.snd).length +
    unattached.length + targets.length
  .info "Validation finished" [
    ("containers", toString containers.length),
    ("errors", toString count)]

end InjectionCompiler
