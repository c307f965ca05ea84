import InjectionCompiler.Proofs.Delivery
import InjectionCompiler.Proofs.Likeness

/-!
# Ids in bounds

An id is a place in an arena, and a look-up that goes beyond the arena answers nothing.  No id of a
graph that was read goes beyond, whether faults were reported or not.  So whatever is looked up by
an id later on, in validation, in planning, in generation or for a report, is found.
-/

namespace InjectionCompiler

/-- The items are the entities behind the ids, one for each. -/
def Arena.Fetches {entity : Entity} {α : Type} (arena : Arena entity α) (ids : List (Id entity))
    (items : List α) : Prop :=
  List.Forall₂ (fun id item => arena.get? id = some item) ids items

/-- Every id that stands in a graph is below the size of its arena, and every entity stands under
its own name. -/
structure ObjectGraph.InBounds (graph : ObjectGraph) : Prop where
  modules_named : graph.modules.Named Module.name
  contracts_named : graph.contracts.Named Contract.name
  factories_named : graph.factories.Named Factory.name
  imported_modules : ∀ module ∈ graph.modules.items, ∀ id site,
    .module id site ∈ module.imports → id.index < graph.modules.size
  imported_contracts : ∀ module ∈ graph.modules.items, ∀ id site lazy,
    .contract id site lazy ∈ module.imports → id.index < graph.contracts.size
  hosted_factories : ∀ module ∈ graph.modules.items, ∀ id ∈ module.factories,
    id.index < graph.factories.size
  hosted_contracts : ∀ module ∈ graph.modules.items, ∀ id ∈ module.contracts,
    id.index < graph.contracts.size
  components : ∀ component ∈ graph.components, component.module.index < graph.modules.size
  configurations : ∀ configuration ∈ graph.configurations,
    configuration.module.index < graph.modules.size ∧
      configuration.contract.index < graph.contracts.size

/-- What is looked up in a graph alone is found, and nothing is left out. -/
structure ObjectGraph.Fetched (graph : ObjectGraph) : Prop where
  /-- The effective modules of a container, for validation and reports. -/
  effective : ∀ container ∈ graph.containers,
    graph.modules.Fetches (graph.effectiveIds container.module)
      (graph.effectiveModules container.module)
  /-- What a module hosts, for the same. -/
  hosted : ∀ module ∈ graph.modules.items,
    graph.factories.Fetches module.factories (graph.hostedFactories module) ∧
      graph.contracts.Fetches module.contracts (graph.hostedContracts module)
  /-- The contracts that a wiring takes from the imports of a module. -/
  wired : ∀ module ∈ graph.modules.items, ∀ entry ∈ Wiring.contractImports module,
    ∃ contract, graph.contracts.get? entry.1 = some contract
  /-- The contracts that configurations serve. -/
  served : ∀ configuration ∈ graph.configurations,
    ∃ contract, graph.contracts.get? configuration.contract = some contract
  /-- What a module hosts, when its providers are assigned. -/
  assigned : ∀ module ∈ graph.modules.items,
    (module.knownFactories graph).map Prod.fst = module.factories ∧
      (module.knownContracts graph).map Prod.fst = module.contracts
  /-- The imported contracts, when a plan is composed. -/
  assembled : ∀ path : ClassPath, (graph.inputImports path).map (fun entry =>
    (entry.1, entry.2.2)) = Assigning.importedContracts (graph.inputModules path)
  /-- The imports that a report lists. -/
  reported : ∀ module ∈ graph.modules.items, ∀ declared ∈ module.imports,
    ∃ line, graph.importReport declared = some line

/-- What is looked up for the units of a plan is found, and nothing is left out. -/
structure Plan.Fetched (graph : ObjectGraph) (plan : Plan) : Prop where
  in_range : plan.InRange graph
  keys : ∀ provider ∈ plan.providers, ∃ key, provider.key? graph = some key
  factories : graph.factories.Fetches plan.factories
    (plan.factories.filterMap graph.factories.get?)
  contracts : graph.contracts.Fetches plan.contracts
    (plan.contracts.filterMap graph.contracts.get?)

variable {path : ClassPath} {graph : ObjectGraph} {project : String}

/-! ## Ids in bounds are found -/

namespace ObjectGraph

theorem map_filterMap_eq_self {α β : Type} {find : α → Option β} {back : β → α} {xs : List α}
    (h : ∀ x ∈ xs, ∃ y, find x = some y ∧ back y = x) : (xs.filterMap find).map back = xs := by
  induction xs with
  | nil => rfl
  | cons x xs ih =>
      obtain ⟨⟨y, hy, hback⟩, hrest⟩ := List.forall_mem_cons.1 h
      rw [List.filterMap_cons_some hy, List.map_cons, hback, ih hrest]

theorem map_fst_known {entity : Entity} {α : Type} {arena : Arena entity α}
    {ids : List (Id entity)} (h : ∀ id ∈ ids, ∃ item, arena.get? id = some item) :
    (ids.filterMap fun id => (arena.get? id).map fun item => (id, item)).map Prod.fst = ids := by
  refine map_filterMap_eq_self fun id hid => ?_
  obtain ⟨item, hitem⟩ := h id hid
  exact ⟨(id, item), by rw [hitem, Option.map_some], rfl⟩

namespace InBounds

variable (h : graph.InBounds)

include h

theorem exists_contract {module : Module} (hmodule : module ∈ graph.modules.items)
    {id : Id .contract} {site : ImportSite} {lazy : Bool}
    (himport : .contract id site lazy ∈ module.imports) :
    ∃ contract, graph.contracts.get? id = some contract :=
  Arena.exists_get?_iff.2 (h.imported_contracts module hmodule id site lazy himport)

theorem index_lt_of_leads {root target : Id .module} (hroot : root.index < graph.modules.size)
    (hleads : graph.importSpace.Leads root target) : target.index < graph.modules.size := by
  induction hleads with
  | refl => exact hroot
  | @step middle next _ hnext ih =>
      obtain ⟨module, hmodule⟩ := Arena.exists_get?_iff.2 ih
      have himported : next ∈ graph.importedModules middle := hnext
      rw [importedModules, hmodule] at himported
      obtain ⟨declared, hdeclared, htarget⟩ := List.mem_filterMap.1 himported
      cases declared with
      | module id site =>
          cases htarget
          exact h.imported_modules module (Arena.mem_items_of_get? hmodule) _ site hdeclared
      | contract => cases htarget

theorem index_lt_of_container {container : Container} (hcontainer : container ∈ graph.containers) :
    container.module.index < graph.modules.size := by
  rcases List.mem_append.1 hcontainer with hmem | hmem
  · obtain ⟨component, hcomponent, rfl⟩ := List.mem_map.1 hmem
    exact h.components component hcomponent
  · obtain ⟨configuration, hconfiguration, rfl⟩ := List.mem_map.1 hmem
    exact (h.configurations configuration hconfiguration).1

theorem exists_importReport {module : Module} (hmodule : module ∈ graph.modules.items)
    {declared : Import} (hdeclared : declared ∈ module.imports) :
    ∃ line, graph.importReport declared = some line := by
  cases declared with
  | module id site =>
      obtain ⟨held, hheld⟩ :=
        Arena.exists_get?_iff.2 (h.imported_modules module hmodule id site hdeclared)
      exact ⟨_, by rw [importReport, hheld]; rfl⟩
  | contract id site lazy =>
      obtain ⟨held, hheld⟩ := h.exists_contract hmodule hdeclared
      exact ⟨_, by rw [importReport, hheld]; rfl⟩

theorem exists_importedContract {entry : Id .contract × Bool}
    (hentry : entry ∈ Assigning.importedContracts (graph.inputModules path)) :
    ∃ contract, graph.contracts.get? entry.1 = some contract := by
  rw [Assigning.importedContracts_eq] at hentry
  obtain ⟨module, hmodule, hentry⟩ := List.mem_flatMap.1 (mem_of_mem_firstsFrom hentry).1
  obtain ⟨declared, hdeclared, hfound⟩ := List.mem_filterMap.1 hentry
  cases declared with
  | module => cases hfound
  | contract id site lazy =>
      cases hfound
      exact h.exists_contract (mem_inputModules.1 hmodule).1 hdeclared

theorem fetched : graph.Fetched := by
  have hfactories : ∀ module ∈ graph.modules.items, ∀ id ∈ module.factories,
      ∃ factory, graph.factories.get? id = some factory := fun module hmodule id hid =>
    Arena.exists_get?_iff.2 (h.hosted_factories module hmodule id hid)
  have hcontracts : ∀ module ∈ graph.modules.items, ∀ id ∈ module.contracts,
      ∃ contract, graph.contracts.get? id = some contract := fun module hmodule id hid =>
    Arena.exists_get?_iff.2 (h.hosted_contracts module hmodule id hid)
  -- Each lookup is of ids that the bounds speak of.
  constructor
  case effective =>
    intro container hcontainer
    refine Plan.forall₂_filterMap_get? fun id hid => Arena.exists_get?_iff.2 ?_
    exact h.index_lt_of_leads (h.index_lt_of_container hcontainer)
      (SearchSpace.mem_reach_iff.1 hid)
  case hosted =>
    exact fun module hmodule => ⟨Plan.forall₂_filterMap_get? (hfactories module hmodule),
      Plan.forall₂_filterMap_get? (hcontracts module hmodule)⟩
  case wired =>
    intro module hmodule entry hentry
    obtain ⟨declared, hdeclared, hfound⟩ := List.mem_filterMap.1 hentry
    cases declared with
    | module => cases hfound
    | contract id site lazy =>
        cases hfound
        exact h.exists_contract hmodule hdeclared
  case served =>
    exact fun configuration hconfiguration =>
      Arena.exists_get?_iff.2 (h.configurations configuration hconfiguration).2
  case assigned =>
    exact fun module hmodule => ⟨map_fst_known (hfactories module hmodule),
      map_fst_known (hcontracts module hmodule)⟩
  case assembled =>
    intro path
    refine map_filterMap_eq_self fun entry hentry => ?_
    obtain ⟨contract, hcontract⟩ := h.exists_importedContract hentry
    exact ⟨(entry.1, contract, entry.2), by simp only [hcontract, Option.map_some], rfl⟩
  case reported => exact fun module hmodule declared => h.exists_importReport hmodule

end InBounds

end ObjectGraph

/-! ## Graphs that were read -/

namespace ClassPath

theorem inBounds_readGraph (h : (path.readGraph project).result = .ok graph) :
    graph.InBounds := by
  obtain ⟨hmodules, hcontracts, hfactories, -⟩ := wellFormed_readGraph h
  have hgrounded := grounded_readGraph h
  obtain ⟨marked, book, configured, hportrays, -⟩ := portrays_of_readGraph h
  constructor
  case modules_named => exact hmodules
  case contracts_named => exact hcontracts
  case factories_named => exact hfactories
  case imported_modules =>
    intro module hmodule id site himport
    obtain ⟨decl, -, hlinked, -⟩ :=
      hportrays.exists_decl (Arena.named?_of_mem hportrays.named hmodule)
    obtain ⟨declared, -, hlink⟩ := exists_left_of_forall₂ hlinked himport
    cases hlink with
    | module site wrapped hname =>
        obtain ⟨held, hheld, -⟩ := Arena.exists_get?_of_nameOf? hname
        exact Arena.exists_get?_iff.1 ⟨held, hheld⟩
  case imported_contracts =>
    exact fun module hmodule id site lazy himport => Arena.exists_get?_iff.1
      (hgrounded.imported_contracts module hmodule id site lazy himport)
  case hosted_factories =>
    exact fun module hmodule id hid => Arena.exists_get?_iff.1
      (hgrounded.hosted_factories module hmodule id hid)
  case hosted_contracts =>
    exact fun module hmodule id hid => Arena.exists_get?_iff.1
      (hgrounded.hosted_contracts module hmodule id hid)
  case components =>
    intro component hcomponent
    rw [hportrays.components] at hcomponent
    obtain ⟨name, -, hfound⟩ := List.mem_filterMap.1 hcomponent
    obtain ⟨id, hid, rfl⟩ := Option.map_eq_some_iff.1 hfound
    exact Arena.index_lt_of_find? hid
  case configurations =>
    intro configuration hconfiguration
    rw [hportrays.configurations] at hconfiguration
    obtain ⟨⟨name, contract⟩, hmem, hfound⟩ := List.mem_filterMap.1 hconfiguration
    obtain ⟨id, hid, rfl⟩ := Option.map_eq_some_iff.1 hfound
    -- The contract was in the book when the configuration was read, and the book only grows.
    obtain ⟨declared, -, hserved⟩ := exists_left_of_forall₂ hportrays.serves hmem
    rw [hportrays.contracts]
    exact ⟨Arena.index_lt_of_find? hid, held_of_nameOf? hserved.2⟩

end ClassPath

/-! ## Runs -/

theorem Plan.InRange.fetched {plan : Plan} (h : plan.InRange graph) : plan.Fetched graph := by
  constructor
  case in_range => exact h
  case keys =>
    exact fun provider hprovider => exists_key?_of_inRange (h.providers provider hprovider)
  case factories => exact forall₂_filterMap_get? h.factories
  case contracts => exact forall₂_filterMap_get? h.contracts

namespace Depot

def mark (type : ClassName) : Annotation :=
  .set (.ofType type) "value" (.array [.type (.object ⟨"app/Depot"⟩)])

def importing (name : String) (type : Signature) (marks : List ClassName) : FieldDecl where
  name := name
  type := type
  isStatic := false
  annotations := (Vocabulary.importMark :: marks).map .ofType

def component : ClassDecl :=
  { ClassDecl.ofClass ⟨"app/Depot"⟩ with
    annotations := [.ofType Vocabulary.component]
    fields := [importing "rack" (.applied Vocabulary.lazy [.ofClass ⟨"app/Rack"⟩]) [],
      importing "catalogue" (.ofClass ⟨"app/Catalogue"⟩) [Vocabulary.contract]] }

def module : ClassDecl :=
  { ClassDecl.ofClass ⟨"app/Rack"⟩ with annotations := [.ofType Vocabulary.moduleMark] }

def factory : ClassDecl :=
  { ClassDecl.ofInterface ⟨"app/Maker"⟩ with
    annotations := [.ofType Vocabulary.factory, mark Vocabulary.providedBy] }

def contract : ClassDecl :=
  { ClassDecl.ofInterface ⟨"app/Catalogue"⟩ with annotations := [.ofType Vocabulary.contract] }

def configuration : ClassDecl :=
  (ClassDecl.ofClass ⟨"app/Outlet"⟩).extendingGeneric
    (.applied Vocabulary.contractConfiguration [.ofClass ⟨"app/Catalogue"⟩])

def run : Compilation where
  path := [component, module, factory, contract, configuration].foldl ClassPath.addInput ∅
  compiled := []
  config := .default
  time := ""

end Depot

namespace Compilation

/-- No id of a graph that was read is out of bounds, and whatever is looked up by an id in the graph
or for its plan is found. -/
theorem ids_in_bounds {run : Compilation} {graph : ObjectGraph} {project : String}
    (hgraph : (run.path.readGraph project).result = .ok graph) :
    graph.InBounds ∧ graph.Fetched ∧
      ∀ plan, (run.plan graph).value.1 = .ok plan → plan.Fetched graph := by
  have hbounds := ClassPath.inBounds_readGraph hgraph
  refine ⟨hbounds, hbounds.fetched, fun plan hplan => ?_⟩
  obtain ⟨assigned, hcomplete⟩ := exists_complete hgraph hplan
  exact (Plan.inRange_of_ends hcomplete (ClassPath.grounded_readGraph hgraph)
    (ends_plan hplan)).fetched

set_option maxRecDepth 100000 in
/-- The wrapped import is a fault, and still is linked. -/
theorem ids_in_bounds_depot :
    ∃ graph plan, (Depot.run.path.readGraph "main").result = .ok graph ∧
      (Depot.run.path.readGraph "main").faultCount = 1 ∧
      graph.modules.names = [⟨"app/Depot"⟩, ⟨"app/Outlet"⟩, ⟨"app/Rack"⟩] ∧
      graph.modules.items.map (fun module => (module.imports.length, module.factories.length,
        module.contracts.length)) = [(2, 1, 0), (0, 0, 1), (0, 0, 0)] ∧
      graph.containers.length = 2 ∧ (Depot.run.plan graph).value.1 = .ok plan ∧
      graph.InBounds ∧ graph.Fetched ∧ plan.Fetched graph := by
  have hread : (Depot.run.path.readGraph "main").result.map (fun graph =>
      (graph.modules.names, graph.modules.items.map (fun module => (module.imports.length,
        module.factories.length, module.contracts.length)), graph.containers.length)) =
      .ok ([⟨"app/Depot"⟩, ⟨"app/Outlet"⟩, ⟨"app/Rack"⟩],
        [(2, 1, 0), (0, 0, 1), (0, 0, 0)], 2) := by
    decide +kernel
  have hplanned : ((Depot.run.path.readGraph "main").result >>= fun graph =>
      (Depot.run.plan graph).value.1).isOk = true := by
    decide +kernel
  obtain ⟨graph, hgraph, hcounts⟩ := exists_ok_of_map_eq_ok hread
  obtain ⟨plan, hplan⟩ := exists_ok_of_isOk hplanned
  rw [hgraph] at hplan
  simp only [Prod.mk.injEq] at hcounts
  obtain ⟨hnames, hhosted, hcontainers⟩ := hcounts
  obtain ⟨hbounds, hfetched, hplans⟩ := ids_in_bounds hgraph
  exact ⟨graph, plan, hgraph, by decide +kernel, hnames, hhosted, hcontainers, hplan, hbounds,
    hfetched, hplans plan hplan⟩

end Compilation

end InjectionCompiler
