import InjectionCompiler.Proofs.Attachment
import InjectionCompiler.Proofs.Compilation
import InjectionCompiler.Proofs.FaultCount

/-!
# Injected members

What the constructor of a hosted class takes is asked of every container that hosts the class.  What
is injected into fields and methods is asked only of classes that cannot be provided, and of one
component for each of them.
-/

namespace InjectionCompiler

open Wiring

/-- The container below `root` provides all these dependencies. -/
def ObjectGraph.Serves (graph : ObjectGraph) (root : Id .module) (dependencies : List Dependency) :
    Prop :=
  ∀ dependency ∈ dependencies, ∃ place, ProvidedAt graph root place dependency.key.boxed

/-- Wherever a constructor is hosted, what `asked` of its class is provided. -/
def ObjectGraph.ServesHosted (graph : ObjectGraph) (asked : InjectionTarget → List Dependency) :
    Prop :=
  ∀ container ∈ graph.containers, ∀ id module, graph.Effective container.module id module →
    ∀ target ∈ graph.providable, module.HasConstructor target.name →
      graph.Serves container.module (asked target)

variable {path : ClassPath} {project : String} {graph : ObjectGraph}

namespace ClassPath

theorem injectees_of_isConstructor (hgraph : (path.readGraph project).result = .ok graph)
    {target : InjectionTarget} (htarget : target ∈ graph.providable) {module : Module}
    (hmodule : module ∈ graph.modules.items) {point : ProvisionPoint}
    (hpoint : point ∈ module.provisionPoints) (hconstructor : point.IsConstructor)
    (howner : point.owner = target.name) : point.injectees = target.constructorInjectees := by
  obtain ⟨decl, hdecl, constructor, hinjected, rfl⟩ :=
    exists_constructorPoint hgraph hmodule hpoint hconstructor
  obtain ⟨marked, book, configured, hportrays, -⟩ := portrays_of_readGraph hgraph
  obtain ⟨other, hother, hname, same, hsame, hinjectees⟩ :=
    exists_injectedConstructor (hportrays.providable ▸ htarget)
  obtain rfl : other = decl :=
    List.inj_on_of_nodup_map path.nodup_decls hother hdecl (hname.trans howner.symm)
  rw [hinjected, List.singleton_inj] at hsame
  rw [hinjectees, ← hsame]
  rfl

end ClassPath

namespace ObjectGraph

theorem serves_of_unresolved_eq_nil {root : Id .module}
    (h : (ofRoot graph root).unresolved = []) {dependencies : List Dependency}
    (hrequires : ∀ dependency ∈ dependencies,
      ∃ requirer, Requires graph root dependency.key.boxed requirer) :
    graph.Serves root dependencies := by
  intro dependency hdependency
  by_contra hmissing
  have hmem := mem_map_fst_unresolved.2 ⟨hrequires dependency hdependency, hmissing⟩
  rw [h] at hmem
  cases hmem

theorem exists_component (hgraph : (path.readGraph project).result = .ok graph)
    {container : Container} (hcontainer : container ∈ graph.containers)
    (h : graph.components.any (fun component => component.name = container.name) = true) :
    ∃ component ∈ graph.components, component.module = container.module := by
  obtain ⟨component, hcomponent, hname⟩ := List.any_eq_true.1 h
  obtain ⟨marked, book, configured, hportrays, -⟩ := ClassPath.portrays_of_readGraph hgraph
  have hlisted : ⟨component.name, .component, component.module⟩ ∈ graph.containers :=
    List.mem_append_left _ (List.mem_map_of_mem hcomponent)
  have hone := hportrays.nameOf?_of_container hlisted
  have htwo := hportrays.nameOf?_of_container hcontainer
  obtain ⟨first, hfirst, hnamed⟩ := Arena.exists_get?_of_nameOf? hone
  obtain ⟨second, hsecond, hnamed'⟩ := Arena.exists_get?_of_nameOf? htwo
  have hsame : first.name = second.name := by
    rw [hportrays.named _ _ hnamed, hportrays.named _ _ hnamed']
    simpa using hname
  exact ⟨component, hcomponent, hportrays.named.id_unique hfirst hsecond hsame⟩

theorem exists_component_of_targetFaults (hgraph : (path.readGraph project).result = .ok graph)
    (h : graph.targetFaults graph.wirings = []) (hcomponents : graph.components ≠ [])
    {target : InjectionTarget} (htarget : target ∈ graph.injectable)
    (hprovidable : graph.providable? target.name = none) :
    ∃ component ∈ graph.components, graph.Serves component.module target.dependencies := by
  have hnone : bestCandidates (graph.wirings.filter fun entry =>
      graph.components.any fun component => component.name = entry.1.name) target = [] := by
    have hfaults := List.filterMap_eq_nil_iff.1 h target
      (List.mem_filter.2 ⟨htarget, by rw [hprovidable]; rfl⟩)
    cases hcandidates : bestCandidates (graph.wirings.filter fun entry =>
      graph.components.any fun component => component.name = entry.1.name) target with
    | nil => rfl
    | cons candidate candidates =>
        rw [hcandidates] at hfaults
        cases hfaults
  -- None is left for want of components, or since one of them has it all.
  rcases bestCandidates_eq_nil_iff.1 hnone with hempty | ⟨entry, hentry, hserved⟩
  · obtain ⟨component, hcomponent⟩ := List.exists_mem_of_ne_nil _ hcomponents
    have hmem : (⟨component.name, .component, component.module⟩,
        ofRoot graph component.module) ∈ graph.wirings :=
      List.mem_map_of_mem (List.mem_append_left _ (List.mem_map_of_mem hcomponent))
    have hkept := List.filter_eq_nil_iff.1 hempty _ hmem
    exact absurd (List.any_eq_true.2 ⟨component, hcomponent, decide_eq_true rfl⟩) hkept
  · obtain ⟨hwiring, hname⟩ := List.mem_filter.1 hentry
    obtain ⟨container, hcontainer, rfl⟩ := List.mem_map.1 hwiring
    obtain ⟨component, hcomponent, hmodule⟩ := exists_component hgraph hcontainer hname
    refine ⟨component, hcomponent, fun dependency hdependency => ?_⟩
    rw [hmodule]
    exact resolves_iff.1 (hserved dependency hdependency)

end ObjectGraph

/-! ## Runs that generate code -/

namespace Parlor

def injected (name : String) (type : ClassName) : FieldDecl where
  name := name
  type := .ofClass type
  isStatic := false
  annotations := [.ofType Vocabulary.inject]

def component : ClassDecl :=
  { ClassDecl.ofClass ⟨"app/Parlor"⟩ with
    annotations := [.ofType Vocabulary.component]
    methods := [Shop.providing "clock" (.ofClass ⟨"app/Clock"⟩) []] }

/-- A class that the component hosts.  Its constructor takes a clock, and a field of it a tuner. -/
def piano : ClassDecl :=
  { ClassDecl.ofClass ⟨"app/Piano"⟩ with
    annotations := [.set (.ofType Vocabulary.providedBy) "value"
      (.array [.type (.object ⟨"app/Parlor"⟩)])]
    methods := [{ MethodDecl.emptyConstructor with
      parameters := [⟨.ofClass ⟨"app/Clock"⟩, []⟩]
      annotations := [.ofType Vocabulary.inject] }]
    fields := [injected "tuner" ⟨"app/Tuner"⟩] }

def guest : ClassDecl :=
  { ClassDecl.ofClass ⟨"app/Guest"⟩ with fields := [injected "clock" ⟨"app/Clock"⟩] }

def run : Compilation where
  path := [component, piano, guest].foldl ClassPath.addInput ∅
  compiled := []
  config := .default
  time := ""

/-- For each container, where the sources of its own module come from, and the classes that can be
provided and ask for what it has not. -/
def shown (graph : ObjectGraph) : List (Option (List (ClassName × Origin)) × List ClassName) :=
  graph.containers.map fun container =>
    ((graph.modules.get? container.module).map fun module =>
        module.provisionPoints.map fun point => (point.owner, point.origin),
      (graph.providable.filter fun target => !target.dependencies.all fun dependency =>
        (ofRoot graph container.module).resolves dependency.key).map InjectionTarget.name)

end Parlor

namespace Compilation

variable {run : Compilation} {σ : Type} {reported : List String} {backend : Backend}
  {sink : Sink σ} {state : σ} {count : Nat}

/-- In a run that generates code, every container provides what the constructors take that it hosts,
and for each class that cannot be provided some component, if there is any, provides what is
injected into its members. -/
theorem injected_served
    (h : (run.compile reported backend sink state).value.1 = .ok (.generated count)) :
    ∃ graph, run.prepare.result = .ok graph ∧
      graph.ServesHosted InjectionTarget.constructorInjectees ∧
      (graph.components ≠ [] → ∀ target ∈ graph.injectable,
        graph.providable? target.name = none →
          ∃ component ∈ graph.components, graph.Serves component.module target.dependencies) := by
  obtain ⟨graph, -, hgraph, hfaults, -, -⟩ := prepare_of_compile h
  obtain ⟨hread, before, hsplit⟩ := readGraph_of_prepare hgraph
  refine ⟨graph, hgraph, ?_, fun hcomponents target htarget hprovidable => ?_⟩
  · rintro container hcontainer id module heffective target htarget
      ⟨point, hpoint, hconstructor, howner⟩
    refine ObjectGraph.serves_of_unresolved_eq_nil (wiring_of_prepare hgraph hfaults hcontainer).2
      fun dependency hdependency => ⟨.provisionPoint point, ?_⟩
    have hinjectees := ClassPath.injectees_of_isConstructor hread htarget
      (Arena.mem_items_of_get? heffective.2) hpoint hconstructor howner
    exact .provisionPoint heffective hpoint (hinjectees ▸ hdependency)
  · rw [hsplit, List.append_eq_nil_iff, ClassPath.faults_validate,
      List.append_eq_nil_iff] at hfaults
    exact ObjectGraph.exists_component_of_targetFaults hread hfaults.2.2 hcomponents htarget
      hprovidable

set_option maxRecDepth 100000 in
theorem injected_served_parlor :
    (Parlor.run.compile [] (fun _ => .ok "") Shop.sink ()).value.1 = .ok (.generated 2) ∧
      ∃ graph, Parlor.run.prepare.result = .ok graph ∧
        graph.providable.map InjectionTarget.name = [⟨"app/Piano"⟩] ∧
        graph.injectable.map InjectionTarget.name = [⟨"app/Piano"⟩, ⟨"app/Guest"⟩] ∧
        graph.components.length = 1 ∧
        graph.ServesHosted InjectionTarget.constructorInjectees ∧
        ∀ target ∈ graph.injectable, graph.providable? target.name = none →
          ∃ component ∈ graph.components, graph.Serves component.module target.dependencies := by
  have hgenerated : (Parlor.run.compile [] (fun _ => .ok "") Shop.sink ()).value.1 =
      .ok (.generated 2) := by
    decide +kernel
  have hread : Parlor.run.prepare.result.map (fun graph =>
      (graph.providable.map InjectionTarget.name, graph.injectable.map InjectionTarget.name,
        graph.components.length)) =
      .ok ([⟨"app/Piano"⟩], [⟨"app/Piano"⟩, ⟨"app/Guest"⟩], 1) := by
    decide +kernel
  obtain ⟨graph, hgraph, hhosted, hmembers⟩ := injected_served hgenerated
  rw [hgraph] at hread
  simp only [Except.map, Except.ok.injEq, Prod.mk.injEq] at hread
  obtain ⟨hprovidable, hinjectable, hcomponents⟩ := hread
  refine ⟨hgenerated, graph, hgraph, hprovidable, hinjectable, hcomponents, hhosted, hmembers ?_⟩
  rw [← List.length_pos_iff_ne_nil, hcomponents]
  exact Nat.one_pos

set_option maxRecDepth 100000 in
/-- The component hosts the constructor of the piano, and has no tuner for it. -/
theorem members_not_served :
    (Parlor.run.compile [] (fun _ => .ok "") Shop.sink ()).value.1 = .ok (.generated 2) ∧
      ∃ graph, Parlor.run.prepare.result = .ok graph ∧
        ¬ graph.ServesHosted InjectionTarget.dependencies := by
  have hread : Parlor.run.prepare.result.map Parlor.shown = .ok [
      (some [(⟨"app/Piano"⟩, .constructor [.direct (.ofClass ⟨"app/Clock"⟩)]),
          (⟨"app/Parlor"⟩, .method "clock" [])],
        [⟨"app/Piano"⟩])] := by
    decide +kernel
  obtain ⟨graph, hgraph, hshown⟩ := exists_ok_of_map_eq_ok hread
  refine ⟨by decide +kernel, graph, hgraph, fun hserves => ?_⟩
  obtain ⟨container, hcontainer, hparts⟩ :=
    List.mem_map.1 (hshown.symm ▸ List.mem_singleton_self _ : _ ∈ Parlor.shown graph)
  rw [Prod.mk.injEq] at hparts
  obtain ⟨hsources, hlacking⟩ := hparts
  obtain ⟨module, hmodule, hpoints⟩ := Option.map_eq_some_iff.1 hsources
  obtain ⟨point, hpoint, hsource⟩ : ∃ point ∈ module.provisionPoints,
      (point.owner, point.origin) =
        (⟨"app/Piano"⟩, .constructor [.direct (.ofClass ⟨"app/Clock"⟩)]) :=
    List.mem_map.1 (hpoints ▸ List.mem_cons_self ..)
  obtain ⟨target, hunserved, hname⟩ := List.mem_map.1 (hlacking.symm ▸ List.mem_singleton_self _)
  obtain ⟨htarget, hlacks⟩ := List.mem_filter.1 hunserved
  rw [Prod.mk.injEq] at hsource
  -- A piano that is served is not among the classes that lack something.
  have hall : (target.dependencies.all fun dependency =>
      (ofRoot graph container.module).resolves dependency.key) = true :=
    List.all_eq_true.2 fun dependency hdependency => resolves_iff.2 <|
      hserves container hcontainer container.module module ⟨.refl _, hmodule⟩ target htarget
        ⟨point, hpoint, ⟨_, hsource.2⟩, hsource.1.trans hname.symm⟩ dependency hdependency
  rw [hall] at hlacks
  cases hlacks

end Compilation

end InjectionCompiler
