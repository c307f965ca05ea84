import InjectionCompiler.Config
import InjectionCompiler.Emission
import InjectionCompiler.ObjectGraph.Discovery
import InjectionCompiler.Report
import InjectionCompiler.Validity

/-!
# Compilation

A whole run: the graph of a class path is read and checked, and when no fault was reported its code
is generated.  A graph with faults is not generated at all.
-/

namespace InjectionCompiler

structure Compilation where
  path : ClassPath
  /-- Names of classes that exist already and must not be generated. -/
  compiled : List ClassName
  config : Config
  /-- The time of the run, as it stands in reports. -/
  time : String

inductive Outcome where
  /-- Nothing was generated, for so many faults. -/
  | skipped (faults : Nat)
  | generated (providers : Nat)
  deriving DecidableEq, Repr

namespace Compilation

/-- Reads the graph and reports its faults. -/
def prepare (run : Compilation) : Work ObjectGraph := do
  match run.config.validate with
  | .error fault => throw fault.failure
  | .ok () =>
      Logged.info "Processing injection graph" [("project", run.config.project)]
      let graph ← run.path.readGraph run.config.project
      run.path.validate graph run.config.checkCycles
      return graph

def plan (run : Compilation) (graph : ObjectGraph) : Logged (Except Failure Plan × Assignment) :=
  (Assigning.composePlan run.path graph).run.run
    (Assignment.ofCompiled run.config.project run.compiled)

/-- Puts a report into the journal, when the configuration asks for one. -/
def tellReport (run : Compilation) (graph : ObjectGraph) (plan : Option Plan) : Logged Unit :=
  if run.config.debugReport then
    .debug ("Injection graph:\n" ++ (graph.report run.config.project run.time plan).json) []
  else
    pure ()

variable {σ : Type}

def generate (run : Compilation) (backend : Backend) (sink : Sink σ) (state : σ)
    (graph : ObjectGraph) : Logged (Except Failure Outcome × σ) := do
  match (← run.plan graph).1 with
  | .error failure => return (.error failure, state)
  | .ok plan =>
      run.tellReport graph (some plan)
      let (result, state) ← emit backend sink state (plan.units graph)
      return (result.map fun () => .generated plan.providers.length, state)

/-- Runs a compilation.  Faults that were reported before the run keep it from generating, like
those it finds itself. -/
def compile (run : Compilation) (reported : List String) (backend : Backend) (sink : Sink σ)
    (state : σ) : Logged (Except Failure Outcome × σ) := do
  let prepared := run.prepare
  match ← prepared.run with
  | .error failure => return (.error failure, state)
  | .ok graph =>
      let count := reported.length + (faults prepared.events).length
      if count = 0 then run.generate backend sink state graph
      else
        run.tellReport graph none
        .tell (.warning ("Skipping generation: " ++ toString count ++ " errors reported"))
        return (.ok (.skipped count), state)

end Compilation

end InjectionCompiler
