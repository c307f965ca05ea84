import InjectionCompiler.Plan
import InjectionCompiler.Yaml

/-!
# Reports

A snapshot of a graph for those who look for a mistake in their configuration: its containers with
their effective modules, its modules, and the providers once they have names.
-/

namespace InjectionCompiler

structure ContainerReport where
  name : ClassName
  kind : String
  modules : List ClassName
  deriving DecidableEq, Repr

structure ModuleReport where
  name : ClassName
  provisionPoints : List String
  bindings : List String
  imports : List String
  factories : List ClassName
  contracts : List ClassName
  deriving DecidableEq, Repr

structure ProviderReport where
  name : ClassName
  key : String
  medium : String
  deriving DecidableEq, Repr

structure Report where
  project : String
  time : String
  containers : List ContainerReport
  modules : List ModuleReport
  providers : List ProviderReport
  deriving DecidableEq, Repr

/-! ## Making a report -/

namespace ObjectGraph

def importReport (graph : ObjectGraph) (declared : Import) : Option String :=
  match declared with
  | .module id site =>
      (graph.modules.get? id).map fun module =>
        "module " ++ module.name.display ++ " via " ++ site.display
  | .contract id site lazy =>
      (graph.contracts.get? id).map fun contract =>
        (if lazy then "lazy " else "") ++ "contract " ++ contract.name.display ++ " via " ++
          site.display

def containerReport (graph : ObjectGraph) (container : Container) : ContainerReport where
  name := container.name
  kind := container.kind.display
  modules := (graph.effectiveModules container.module).map Module.name

def moduleReport (graph : ObjectGraph) (module : Module) : ModuleReport where
  name := module.name
  provisionPoints := module.provisionPoints.map fun point =>
    point.display ++ " provides " ++ point.key.display
  bindings := module.bindings.map Binding.display
  imports := module.imports.filterMap graph.importReport
  factories := (graph.hostedFactories module).map Factory.name
  contracts := (graph.hostedContracts module).map Contract.name

def providerReport (graph : ObjectGraph) (provider : Provider) : ProviderReport where
  name := provider.name
  key := ((provider.key? graph).map Key.display).getD ""
  medium := provider.medium.display

def report (graph : ObjectGraph) (project time : String) (plan : Option Plan) : Report where
  project := project
  time := time
  containers := graph.containers.map graph.containerReport
  modules := graph.modules.items.map graph.moduleReport
  providers :=
    match plan with
    | some plan => plan.providers.map graph.providerReport
    | none => []

end ObjectGraph

/-! ## Written form -/

namespace Report

def names (classes : List ClassName) : Document :=
  .list (classes.map fun name => .text name.internal)

def texts (lines : List String) : Document :=
  .list (lines.map .text)

def document (report : Report) : Document :=
  .record [
    ("project_name", .text report.project),
    ("generated_at", .text report.time),
    ("containers", .list (report.containers.map fun container => .record [
      ("ty", .text container.name.internal),
      ("kind", .text container.kind),
      ("modules", names container.modules)])),
    ("modules", .list (report.modules.map fun module => .record [
      ("ty", .text module.name.internal),
      ("provision_points", texts module.provisionPoints),
      ("bindings", texts module.bindings),
      ("imports", texts module.imports),
      ("factories", names module.factories),
      ("contracts", names module.contracts)])),
    ("providers", .list (report.providers.map fun provider => .record [
      ("ty", .text provider.name.internal),
      ("key", .text provider.key),
      ("medium", .text provider.medium)]))]

def json (report : Report) : String :=
  report.document.pretty

def yaml (report : Report) : String :=
  report.document.yaml

end Report

end InjectionCompiler
