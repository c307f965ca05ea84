import InjectionCompiler.Proofs.Mirror
import InjectionCompiler.Proofs.Output
import InjectionCompiler.Proofs.Reference

/-!
# Indifference to boxing

Units refer to keys in boxed form only.  So nothing that is reported of a container and nothing that
is generated tells whether a graph says a primitive type or its boxed class.
-/

namespace InjectionCompiler

/-! ## Units -/

theorem Medium.display_boxed (medium : Medium) : medium.boxed.display = medium.display := by
  cases medium with
  | provisionPoint point => exact congrArg ("provision point " ++ ·) point.display_boxed
  | binding | factory | contract | getter => rfl

namespace Plan

variable (graph : ObjectGraph) (plan : Plan)

theorem referTo_boxed (key : Key) : plan.referTo key.boxed = plan.referTo key :=
  referTo_congr key.boxed_boxed

theorem referToDependency_boxed (dependency : Dependency) :
    plan.referToDependency dependency.boxed = plan.referToDependency dependency := by
  rw [referToDependency, dependency.key_boxed, plan.referTo_boxed]
  rfl

theorem mapM_referToDependency_boxed (dependencies : List Dependency) :
    (dependencies.map Dependency.boxed).mapM plan.referToDependency =
      dependencies.mapM plan.referToDependency := by
  rw [List.mapM_map]
  exact congrArg (List.mapM · dependencies) (funext plan.referToDependency_boxed)

theorem factoryOf_boxed (id : Id .factory) :
    factoryOf graph.boxed id = (factoryOf graph id).map Factory.boxed := by
  unfold factoryOf
  rw [graph.get?_factories_boxed]
  cases graph.factories.get? id <;> rfl

theorem contractOf_boxed (id : Id .contract) :
    contractOf graph.boxed id = (contractOf graph id).map Contract.boxed := by
  unfold contractOf
  rw [graph.get?_contracts_boxed]
  cases graph.contracts.get? id <;> rfl

theorem mediumSource_boxed (medium : Medium) :
    plan.mediumSource graph.boxed medium.boxed = plan.mediumSource graph medium := by
  cases medium with
  | provisionPoint point =>
      have hsource : pointSource point.boxed = pointSource point := by
        unfold pointSource ProvisionPoint.boxed Origin.boxed
        cases point.origin <;> rfl
      simp only [mediumSource, Medium.boxed, point.injectees_boxed, mapM_referToDependency_boxed,
        hsource]
  | binding bound => rfl
  | factory id =>
      simp only [mediumSource, Medium.boxed, factoryOf_boxed]
      cases factoryOf graph id <;> rfl
  | contract id =>
      simp only [mediumSource, Medium.boxed, contractOf_boxed]
      cases contractOf graph id <;> rfl
  | getter id lazy served =>
      simp only [mediumSource, Medium.boxed, contractOf_boxed]
      cases contractOf graph id <;> rfl

theorem referTo_providerKey_boxed (provider : Provider) :
    (providerKey graph.boxed provider.boxed >>= plan.referTo) =
      (providerKey graph provider >>= plan.referTo) := by
  have hkey := provider.key?_boxed graph
  have hdisplay : provider.boxed.medium.display = provider.medium.display :=
    provider.medium.display_boxed
  unfold providerKey
  rw [hdisplay]
  cases hown : provider.key? graph with
  | none =>
      rw [hown, Option.map_none, Option.map_eq_none_iff] at hkey
      rw [hkey]
  | some key =>
      rw [hown, Option.map_some, Option.map_eq_some_iff] at hkey
      obtain ⟨other, hother, hboxed⟩ := hkey
      rw [hother]
      exact referTo_congr hboxed

theorem providerUnit_boxed (provider : Provider) :
    plan.providerUnit graph.boxed provider.boxed = plan.providerUnit graph provider := by
  have hscope : mediumScope provider.boxed.medium = mediumScope provider.medium := by
    obtain ⟨name, medium⟩ := provider
    cases medium <;> rfl
  have hsource : plan.mediumSource graph.boxed provider.boxed.medium =
      plan.mediumSource graph provider.medium := plan.mediumSource_boxed ..
  unfold providerUnit
  rw [hscope, hsource]
  simp only [← bind_assoc, referTo_providerKey_boxed]
  rfl

theorem factoryUnit_boxed (factory : Factory) :
    plan.factoryUnit factory.boxed = plan.factoryUnit factory := by
  have hargument : ∀ argument : FactoryArgument,
      plan.unitArgument argument.boxed = plan.unitArgument argument := by
    intro argument
    cases argument with
    | injected dependency =>
        simp only [unitArgument, FactoryArgument.boxed, referToDependency_boxed]
    | passed => rfl
  simp only [factoryUnit, Factory.boxed, FactoryMethod.boxed, List.mapM_map, Function.comp_def,
    hargument]

theorem contractUnit_boxed (contract : Contract) :
    plan.contractUnit contract.boxed = plan.contractUnit contract := by
  simp only [contractUnit, Contract.boxed, List.mapM_map, Function.comp_def, Getter.injectee_boxed,
    referToDependency_boxed]
  rfl

theorem units_boxed : plan.boxed.units graph.boxed = plan.units graph := by
  have hprovider : plan.boxed.providerUnit = plan.providerUnit := rfl
  have hfactory : plan.boxed.factoryUnit = plan.factoryUnit := rfl
  have hcontract : plan.boxed.contractUnit = plan.contractUnit := rfl
  unfold units
  rw [hprovider, hfactory, hcontract]
  refine congrArg₂ (· ++ ·) (congrArg₂ (· ++ ·) (congrArg₂ (· ++ ·) (congrArg₂ (· ++ ·) ?_ ?_) ?_)
    rfl) rfl
  · rw [boxed, List.map_map]
    exact List.map_congr_left fun provider _ =>
      congrArg (Prod.mk provider.name) (plan.providerUnit_boxed graph provider)
  · refine (congrArg (List.map _) (graph.filterMap_factories_boxed plan.factories)).trans ?_
    rw [List.map_map]
    exact List.map_congr_left fun factory _ =>
      congrArg (Prod.mk factory.implementation) (plan.factoryUnit_boxed factory)
  · refine (congrArg (List.map _) (graph.filterMap_contracts_boxed plan.contracts)).trans ?_
    rw [List.map_map]
    exact List.map_congr_left fun contract _ =>
      congrArg (Prod.mk contract.implementation) (plan.contractUnit_boxed contract)

end Plan

/-! ## Graphs that differ in boxing -/

/-- What there is to see of a plan. -/
structure Plan.Outline where
  names : List ClassName
  byModule : Table ClassName (List ClassName)
  byContract : Table ClassName (List ClassName)
  registry : KeyRegistry
  invaders : List PackageInvader
  units : List (ClassName × Except Failure GeneratedUnit)

def Plan.outline (graph : ObjectGraph) (plan : Plan) : Plan.Outline where
  names := plan.providers.map Provider.name
  byModule := plan.byModule.mapValues (List.map Provider.name)
  byContract := plan.byContract.mapValues (List.map Provider.name)
  registry := plan.registry
  invaders := plan.invaders
  units := plan.units graph

theorem Plan.outline_boxed (graph : ObjectGraph) (plan : Plan) :
    plan.boxed.outline graph.boxed = plan.outline graph := by
  have hnames : ∀ providers : List Provider,
      (providers.map Provider.boxed).map Provider.name = providers.map Provider.name := by
    intro providers
    rw [List.map_map]
    rfl
  have htable : ∀ table : Table ClassName (List Provider),
      (table.mapValues (List.map Provider.boxed)).mapValues (List.map Provider.name) =
        table.mapValues (List.map Provider.name) := by
    intro table
    simp only [Table.mapValues, List.map_map, Function.comp_def, hnames]
  unfold outline
  rw [plan.units_boxed graph]
  simp only [boxed, hnames, htable]

theorem Compilation.outlines_boxed (run : Compilation) (graph : ObjectGraph) :
    (run.plan graph.boxed).value.1.map (Plan.outline graph.boxed) =
      (run.plan graph).value.1.map (Plan.outline graph) := by
  have hmirrors := Assigning.mirrors_composePlan run.path graph
    (.ofCompiled run.config.project run.compiled)
  have hplans : (run.plan graph.boxed).value.1 = (run.plan graph).value.1.map Plan.boxed :=
    congrArg Prod.fst hmirrors
  rw [hplans]
  cases (run.plan graph).value.1 with
  | error failure => rfl
  | ok plan => exact congrArg Except.ok (plan.outline_boxed graph)

/-- A primitive type and its boxed class are never told apart: graphs that are the same once boxed
have the same messages, and the same is generated for them. -/
theorem ObjectGraph.boxing_irrelevant {graph twin : ObjectGraph} (h : graph.boxed = twin.boxed) :
    graph.containers = twin.containers ∧
      (∀ container : Container,
        container.messages (.ofRoot graph container.module) =
            container.messages (.ofRoot twin container.module) ∧
          ∀ checkCycles, container.faults (.ofRoot graph container.module) checkCycles =
            container.faults (.ofRoot twin container.module) checkCycles) ∧
      ∀ run : Compilation, (run.plan graph).value.1.map (Plan.outline graph) =
        (run.plan twin).value.1.map (Plan.outline twin) := by
  have hmessages : ∀ container : Container,
      container.messages (.ofRoot graph container.module) =
        container.messages (.ofRoot twin container.module) := by
    intro container
    rw [← container.messages_boxed graph, h, container.messages_boxed twin]
  refine ⟨?_, fun container => ⟨hmessages container, fun checkCycles => ?_⟩, fun run => ?_⟩
  · rw [← graph.containers_boxed, h, twin.containers_boxed]
  · rw [container.faults_eq_messages, container.faults_eq_messages, hmessages container]
  · rw [← run.outlines_boxed graph, h, run.outlines_boxed twin]

/-! ## A harbour -/

namespace Harbour

def hosted : Annotation :=
  .mk Vocabulary.providedBy [("value", .array [.type (.object ⟨"app/Harbour"⟩)])]

def taking (mark : ClassName) (type : Signature) : MethodDecl :=
  { MethodDecl.emptyConstructor with
    parameters := [⟨type, []⟩]
    annotations := [.ofType mark] }

def plain (type : Primitive) : Signature :=
  .erased (.primitive type)

def wrapped (type : Primitive) : Signature :=
  .ofClass type.boxed

def decls (one other : Primitive → Signature) : List ClassDecl := [
  { ClassDecl.ofClass ⟨"app/Harbour"⟩ with
    annotations := [.ofType Vocabulary.component]
    methods := [
      Shop.providing "port" (one .int) [⟨"app/Ship"⟩],
      Shop.providing "spare" (other .int) []] },
  { ClassDecl.ofClass ⟨"app/Ship"⟩ with
    annotations := [hosted]
    methods := [taking Vocabulary.inject (other .int)] },
  { ClassDecl.ofClass ⟨"app/Cargo"⟩ with
    methods := [taking Vocabulary.factoryInject (one .long)] },
  { ClassDecl.ofInterface ⟨"app/Dock"⟩ with
    annotations := [.ofType Vocabulary.factory, hosted]
    methods := [Studio.making "load" ⟨"app/Cargo"⟩] },
  { ClassDecl.ofInterface ⟨"app/Pilot"⟩ with
    annotations := [.ofType Vocabulary.contract, hosted]
    methods := [{ Studio.making "depth" ⟨"app/Cargo"⟩ with returns := other .long }] }]

def run (one other : Primitive → Signature) : Compilation where
  path := (decls one other).foldl ClassPath.addInput ∅
  compiled := []
  config := .default
  time := ""

def messages : List String × List String × List String :=
  (["Dependency java.lang.Integer provided multiple times in a single component hierarchy " ++
      "app.Harbour:\n1. app.Harbour.port in module app.Harbour\n" ++
      "2. app.Harbour.spare in module app.Harbour"],
    ["Missing dependency java.lang.Long in component app.Harbour, required by:\n" ++
      "  app.Dock.load\n  app.Pilot.depth"],
    ["Dependency cycle in component app.Harbour:\n  app.Ship\n  java.lang.Integer"])

end Harbour

set_option maxRecDepth 100000 in
/-- The harbour is read with primitive types and wrapped ones exchanged. -/
theorem ObjectGraph.boxing_irrelevant_harbour :
    ∃ graph twin, ((Harbour.run Harbour.plain Harbour.wrapped).path.readGraph "main").result =
        .ok graph ∧
      ((Harbour.run Harbour.wrapped Harbour.plain).path.readGraph "main").result = .ok twin ∧
      graph ≠ twin ∧ graph.boxed = twin.boxed ∧
      (∃ container, twin.containers = [container] ∧
        container.messages (.ofRoot twin container.module) = Harbour.messages) ∧
      ∃ plan other, ((Harbour.run Harbour.plain Harbour.wrapped).plan graph).value.1 = .ok plan ∧
        ((Harbour.run Harbour.plain Harbour.wrapped).plan twin).value.1 = .ok other ∧
        plan.providers.length = 5 ∧ plan.outline graph = other.outline twin := by
  have hread : (do
      let graph ← ((Harbour.run Harbour.plain Harbour.wrapped).path.readGraph "main").result
      let twin ← ((Harbour.run Harbour.wrapped Harbour.plain).path.readGraph "main").result
      let plan ← ((Harbour.run Harbour.plain Harbour.wrapped).plan graph).value.1
      return (graph = twin, graph.boxed = twin.boxed, plan.providers.length = 5,
        graph.containers.map (fun container =>
          container.messages (.ofRoot graph container.module)) = [Harbour.messages]) :
        Except Failure (Bool × Bool × Bool × Bool)) = .ok (false, true, true, true) := by
    decide +kernel
  obtain ⟨graph, hgraph, hread⟩ := bind_eq_ok.1 hread
  obtain ⟨twin, htwin, hread⟩ := bind_eq_ok.1 hread
  obtain ⟨plan, hplan, hread⟩ := bind_eq_ok.1 hread
  obtain ⟨hne, hread⟩ := Prod.mk.inj (Except.ok.inj hread)
  obtain ⟨hboxed, hread⟩ := Prod.mk.inj hread
  obtain ⟨hproviders, hmessages⟩ := Prod.mk.inj hread
  have hboxed := of_decide_eq_true hboxed
  obtain ⟨container, hcontainer, hmessages⟩ :=
    List.map_eq_singleton_iff.1 (of_decide_eq_true hmessages)
  obtain ⟨hcontainers, hsame, houtlines⟩ := boxing_irrelevant hboxed
  have hplans := houtlines (Harbour.run Harbour.plain Harbour.wrapped)
  rw [hplan, eq_comm] at hplans
  obtain ⟨other, hother, houtline⟩ := exists_ok_of_map_eq_ok hplans
  refine ⟨graph, twin, hgraph, htwin, of_decide_eq_false hne, hboxed, ⟨container, ?_, ?_⟩, plan,
    other, hplan, hother, of_decide_eq_true hproviders, houtline.symm⟩
  · rw [← hcontainers, hcontainer]
  · rw [← (hsame container).1, hmessages]

end InjectionCompiler
