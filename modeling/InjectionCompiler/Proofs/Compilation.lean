import InjectionCompiler.Compilation
import InjectionCompiler.Proofs.Linkage
import InjectionCompiler.Proofs.Roster

/-!
# Runs that generate code

A run generates code only when its graph was read and validated without a fault, so what is known of
valid graphs holds of everything that is generated.
-/

namespace InjectionCompiler

open Wiring

theorem ClassPath.wiring_of_faults_eq_nil {path : ClassPath} {graph : ObjectGraph}
    {checkCycles : Bool} (h : (path.validate graph checkCycles).faults = [])
    {container : Container} (hcontainer : container ∈ graph.containers) :
    (ofRoot graph container.module).duplicates = [] ∧
      (ofRoot graph container.module).unresolved = [] := by
  rw [path.faults_validate, List.append_eq_nil_iff, List.append_eq_nil_iff,
    List.append_eq_nil_iff, List.flatMap_eq_nil_iff] at h
  have hfaults := h.1.1.2 container hcontainer
  rw [Container.faults, List.append_eq_nil_iff, List.append_eq_nil_iff, List.map_eq_nil_iff,
    List.map_eq_nil_iff] at hfaults
  exact hfaults.1

/-! ## A small run -/

namespace Shop

def providing (name : String) (type : Signature) (needs : List ClassName) : MethodDecl where
  name := name
  isStatic := false
  typeParameters := []
  parameters := needs.map fun need => ⟨.ofClass need, []⟩
  returns := type
  annotations := [.ofType Vocabulary.provide]

def component : ClassDecl :=
  { ClassDecl.ofClass ⟨"shop/Shop"⟩ with
    annotations := [.ofType Vocabulary.component]
    methods := [
      providing "orders" (.applied ⟨"java/util/List"⟩ [.ofClass ⟨"shop/Order"⟩]) [⟨"shop/Clock"⟩],
      providing "clock" (.ofClass ⟨"shop/Clock"⟩) [Vocabulary.injector]] }

def clock : Key :=
  .ofClass ⟨"shop/Clock"⟩

def orders : Key :=
  ⟨.applied ⟨"java/util/List"⟩ [.ofClass ⟨"shop/Order"⟩], none⟩

def run : Compilation where
  path := ClassPath.addInput ∅ component
  compiled := []
  config := .default
  time := ""

def sink : Sink Unit where
  write _ _ _ := (.ok (), ())
  flush _ := (.ok (), ())

end Shop

/-! ## Steps of a run -/

namespace Compilation

variable {run : Compilation} {graph : ObjectGraph}

theorem faults_prepare (h : run.prepare.result = .ok graph) :
    (run.path.readGraph run.config.project).result = .ok graph ∧
      faults run.prepare.events = faults (run.path.readGraph run.config.project).events ++
        (run.path.validate graph run.config.checkCycles).faults := by
  unfold prepare at h ⊢
  split at h
  · cases h
  · rw [Work.result_bind, Work.result_logged] at h
    obtain ⟨_, -, h⟩ := bind_eq_ok.1 h
    rw [Work.result_bind] at h
    obtain ⟨read, hread, h⟩ := bind_eq_ok.1 h
    rw [Work.result_bind] at h
    obtain ⟨_, -, h⟩ := bind_eq_ok.1 h
    cases h
    refine ⟨hread, ?_⟩
    have hstart : faults (Logged.info "Processing injection graph"
        [("project", run.config.project)]).events = [] := rfl
    have hdone : faults (pure graph : Work ObjectGraph).events = [] := rfl
    rw [Work.events_bind (Work.result_logged _), Work.events_bind hread,
      Work.events_bind (Work.result_logged _), Work.events_logged, Work.events_logged,
      faults_append, faults_append, faults_append, hstart, hdone, List.nil_append, List.append_nil]
    rfl

theorem readGraph_of_prepare (h : run.prepare.result = .ok graph) :
    (run.path.readGraph run.config.project).result = .ok graph ∧
      ∃ before, faults run.prepare.events =
        before ++ (run.path.validate graph run.config.checkCycles).faults :=
  ⟨(faults_prepare h).1, _, (faults_prepare h).2⟩

theorem wiring_of_prepare (h : run.prepare.result = .ok graph)
    (hfaults : faults run.prepare.events = []) {container : Container}
    (hcontainer : container ∈ graph.containers) :
    (ofRoot graph container.module).duplicates = [] ∧
      (ofRoot graph container.module).unresolved = [] := by
  obtain ⟨-, before, hsplit⟩ := readGraph_of_prepare h
  rw [hsplit, List.append_eq_nil_iff] at hfaults
  exact ClassPath.wiring_of_faults_eq_nil hfaults.2 hcontainer

theorem ends_plan {plan : Plan} (h : (run.plan graph).value.1 = .ok plan) :
    Ends (Assigning.composePlan run.path graph)
      (Assignment.ofCompiled run.config.project run.compiled) plan (run.plan graph).value.2 :=
  Prod.ext h rfl

theorem exists_complete {plan : Plan} {project : String}
    (hgraph : (run.path.readGraph project).result = .ok graph)
    (hplan : (run.plan graph).value.1 = .ok plan) :
    ∃ assigned, plan.Complete run.path graph assigned :=
  Plan.exists_complete (ClassPath.wellFormed_readGraph hgraph) (Assignment.sound_ofCompiled ..)
    (ends_plan hplan)

variable {σ : Type} {reported : List String} {backend : Backend} {sink : Sink σ} {state : σ}
  {count : Nat}

theorem plan_of_generate
    (h : (run.generate backend sink state graph).value.1 = .ok (.generated count)) :
    ∃ plan, (run.plan graph).value.1 = .ok plan ∧ plan.providers.length = count := by
  unfold generate at h
  rw [Logged.value_bind] at h
  split at h
  · cases h
  · next plan hplan =>
      rw [Logged.value_bind, Logged.value_bind] at h
      dsimp only [Logged.value_pure] at h
      refine ⟨plan, hplan, ?_⟩
      cases hemit : (emit backend sink state (plan.units graph)).value.1 with
      | error failure =>
          rw [hemit] at h
          cases h
      | ok done =>
          rw [hemit] at h
          cases h
          rfl

theorem generate_of_compile
    (h : (run.compile reported backend sink state).value.1 = .ok (.generated count)) :
    ∃ graph, run.prepare.result = .ok graph ∧ reported = [] ∧ faults run.prepare.events = [] ∧
      (run.generate backend sink state graph).value.1 = .ok (.generated count) := by
  unfold compile at h
  rw [Logged.value_bind] at h
  split at h
  · cases h
  · next graph hgraph =>
      dsimp only at h
      split at h
      · next hcount =>
          obtain ⟨hreported, hfaults⟩ := Nat.add_eq_zero_iff.1 hcount
          exact ⟨graph, hgraph, List.length_eq_zero_iff.1 hreported,
            List.length_eq_zero_iff.1 hfaults, h⟩
      · rw [Logged.value_bind, Logged.value_bind] at h
        cases h

theorem prepare_of_compile
    (h : (run.compile reported backend sink state).value.1 = .ok (.generated count)) :
    ∃ graph plan, run.prepare.result = .ok graph ∧ faults run.prepare.events = [] ∧
      (run.plan graph).value.1 = .ok plan ∧ plan.providers.length = count := by
  obtain ⟨graph, hgraph, -, hfaults, hgenerate⟩ := generate_of_compile h
  obtain ⟨plan, hplan, hlength⟩ := plan_of_generate hgenerate
  exact ⟨graph, plan, hgraph, hfaults, hplan, hlength⟩

/-! ## What is known of generated code -/

/-- The plan for a graph that was read from a class path refers to keys without loss. -/
theorem key_references_lossless {run : Compilation} {graph : ObjectGraph} {plan : Plan}
    (hgraph : (run.path.readGraph run.config.project).result = .ok graph)
    (hplan : (run.plan graph).value.1 = .ok plan) : plan.Lossless graph := by
  obtain ⟨assigned, hcomplete⟩ := exists_complete hgraph hplan
  exact hcomplete.lossless

set_option maxRecDepth 100000 in
theorem key_references_lossless_shop :
    ∃ graph plan, (Shop.run.path.readGraph Shop.run.config.project).result = .ok graph ∧
      (Shop.run.plan graph).value.1 = .ok plan ∧ plan.Lossless graph ∧
      plan.Resolves graph Shop.clock ∧
      plan.referTo Shop.clock = .ok (.classLiteral ⟨"shop/Clock"⟩ none) ∧
      plan.Resolves graph Shop.orders ∧
      plan.referTo Shop.orders = .ok (.registry ⟨plan.registry.name, "key0"⟩) := by
  have hshown : ((Shop.run.path.readGraph Shop.run.config.project).result >>= fun graph =>
      (Shop.run.plan graph).value.1.map fun plan =>
        (plan.providers.map fun provider => provider.key? graph, plan.referTo Shop.clock,
          plan.referTo Shop.orders, plan.registry.name)) =
      .ok ([some Shop.orders, some Shop.clock], .ok (.classLiteral ⟨"shop/Clock"⟩ none),
        .ok (.registry ⟨⟨"io/ferrous/inject/KeyRegistry$main"⟩, "key0"⟩),
        ⟨"io/ferrous/inject/KeyRegistry$main"⟩) := by
    decide +kernel
  obtain ⟨graph, hgraph, hplan⟩ := bind_eq_ok.1 hshown
  obtain ⟨plan, hplan, hread⟩ := exists_ok_of_map_eq_ok hplan
  simp only [Prod.mk.injEq] at hread
  obtain ⟨hkeys, hclock, horders, hregistry⟩ := hread
  have hresolves : ∀ key, some key ∈ [some Shop.orders, some Shop.clock] →
      plan.Resolves graph key := by
    intro key hkey
    rw [← hkeys, List.mem_map] at hkey
    obtain ⟨provider, hprovider, hkey⟩ := hkey
    exact .own hprovider hkey
  exact ⟨graph, plan, hgraph, hplan, key_references_lossless hgraph hplan,
    hresolves _ (by simp), hclock, hresolves _ (by simp), hregistry ▸ horders⟩

/-- The plan for a graph that was read from a class path has one provider for each source. -/
theorem sources_have_one_provider {run : Compilation} {graph : ObjectGraph} {plan : Plan}
    {project : String} (hgraph : (run.path.readGraph project).result = .ok graph)
    (hplan : (run.plan graph).value.1 = .ok plan) : plan.Roster run.path graph := by
  obtain ⟨assigned, hcomplete⟩ := exists_complete hgraph hplan
  exact Plan.roster_of_ends (ClassPath.wellFormed_readGraph hgraph)
    (ClassPath.grounded_readGraph hgraph) hcomplete (ends_plan hplan)

set_option maxRecDepth 100000 in
theorem sources_have_one_provider_shop :
    ∃ graph plan, (Shop.run.path.readGraph "shop").result = .ok graph ∧
      (Shop.run.plan graph).value.1 = .ok plan ∧ plan.providers.length = 2 ∧
      plan.Roster Shop.run.path graph := by
  have hlength : ((Shop.run.path.readGraph "shop").result >>= fun graph =>
      (Shop.run.plan graph).value.1).map (fun plan => plan.providers.length) = .ok 2 := by
    decide +kernel
  obtain ⟨plan, hplan, hproviders⟩ := exists_ok_of_map_eq_ok hlength
  obtain ⟨graph, hgraph, hplan⟩ := bind_eq_ok.1 hplan
  exact ⟨graph, plan, hgraph, hplan, hproviders, sources_have_one_provider hgraph hplan⟩

/-- In a run that generates code, whatever the units of a container of the current input refer to
is the injector, an imported contract, or served by exactly one provider. -/
theorem generated_containers_linked
    (h : (run.compile reported backend sink state).value.1 = .ok (.generated count)) :
    ∃ graph plan, run.prepare.result = .ok graph ∧ (run.plan graph).value.1 = .ok plan ∧
      plan.providers.length = count ∧
      ∀ container ∈ graph.containers,
        (∀ id module, graph.Effective container.module id module →
          run.path.isInput module.name = true) →
        plan.Linked graph container.module := by
  obtain ⟨graph, plan, hgraph, hfaults, hplan, hlength⟩ := prepare_of_compile h
  refine ⟨graph, plan, hgraph, hplan, hlength, fun container hcontainer hinput => ?_⟩
  obtain ⟨assigned, hcomplete⟩ := exists_complete (readGraph_of_prepare hgraph).1 hplan
  obtain ⟨hduplicates, hunresolved⟩ := wiring_of_prepare hgraph hfaults hcontainer
  constructor
  case generated => exact fun provider hprovider => hprovider.name_mem hcomplete
  case needed => exact fun unit hunit reference => hunit.exists_needs
  case served => exact fun key hkey => hkey.served hcomplete hinput hduplicates hunresolved

set_option maxRecDepth 100000 in
theorem generated_containers_linked_shop :
    (Shop.run.compile [] (fun _ => .ok "") Shop.sink ()).value.1 = .ok (.generated 2) ∧
      ∃ graph plan container, Shop.run.prepare.result = .ok graph ∧
        (Shop.run.plan graph).value.1 = .ok plan ∧ container ∈ graph.containers ∧
        plan.Linked graph container.module := by
  have hgenerated : (Shop.run.compile [] (fun _ => .ok "") Shop.sink ()).value.1 =
      .ok (.generated 2) := by
    decide +kernel
  have hinput : Shop.run.prepare.result.toOption.any (fun graph => !graph.containers.isEmpty &&
      graph.modules.items.all fun module => Shop.run.path.isInput module.name) = true := by
    decide +kernel
  obtain ⟨graph, plan, hgraph, hplan, -, hlinked⟩ := generated_containers_linked hgenerated
  rw [hgraph, Except.toOption, Option.any_some, Bool.and_eq_true] at hinput
  have hsome : graph.containers ≠ [] := by simpa using hinput.1
  obtain ⟨container, hcontainer⟩ := List.exists_mem_of_ne_nil _ hsome
  refine ⟨hgenerated, graph, plan, container, hgraph, hplan, hcontainer, ?_⟩
  refine hlinked container hcontainer fun id module hmodule => ?_
  exact List.all_eq_true.1 hinput.2 module (Arena.mem_items_of_get? hmodule.2)

end Compilation

end InjectionCompiler
