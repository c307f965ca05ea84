import InjectionCompiler.Proofs.Search
import InjectionCompiler.Proofs.Table
import InjectionCompiler.Proofs.Wiring
import InjectionCompiler.Validity

/-!
# Boxed graphs

Boxing replaces every primitive type that is provided, injected or got in a graph by its boxed
class.  Graphs that are the same once boxed differ only in where they say one and where they say the
other, and no container tells them apart.
-/

namespace InjectionCompiler

/-! ## Boxing -/

def Origin.boxed : Origin → Origin
  | .constructor injectees => .constructor (injectees.map Dependency.boxed)
  | .method name injectees => .method name (injectees.map Dependency.boxed)
  | .field name => .field name

def ProvisionPoint.boxed (point : ProvisionPoint) : ProvisionPoint :=
  { point with key := point.key.boxed, origin := point.origin.boxed }

def Getter.boxed (getter : Getter) : Getter :=
  { getter with injectee := getter.injectee.boxed }

def Contract.boxed (contract : Contract) : Contract :=
  { contract with getters := contract.getters.map Getter.boxed }

/-- What the caller passes is not looked up, and stays. -/
def FactoryArgument.boxed : FactoryArgument → FactoryArgument
  | .injected dependency => .injected dependency.boxed
  | .passed dependency index => .passed dependency index

def FactoryMethod.boxed (method : FactoryMethod) : FactoryMethod :=
  { method with arguments := method.arguments.map FactoryArgument.boxed }

def Factory.boxed (factory : Factory) : Factory :=
  { factory with methods := factory.methods.map FactoryMethod.boxed }

def Module.boxed (module : Module) : Module :=
  { module with provisionPoints := module.provisionPoints.map ProvisionPoint.boxed }

def Arena.map {entity : Entity} {α β : Type} (arena : Arena entity α) (change : α → β) :
    Arena entity β :=
  ⟨arena.table.mapValues change⟩

/-- What the containers of a graph are made of, with all keys of provision points, injectees,
injected arguments and getters boxed.  The lists of injection targets and of bindings are left out:
neither containers nor plans are made from them. -/
def ObjectGraph.boxed (graph : ObjectGraph) : ObjectGraph where
  modules := graph.modules.map Module.boxed
  contracts := graph.contracts.map Contract.boxed
  factories := graph.factories.map Factory.boxed
  components := graph.components
  configurations := graph.configurations
  injectable := []
  providable := []
  bindings := []

/-! ## Changed arenas -/

namespace Arena

variable {entity : Entity} {α β : Type}

@[simp] theorem items_map (arena : Arena entity α) (change : α → β) :
    (arena.map change).items = arena.items.map change :=
  Table.values_mapValues ..

theorem entries_map (arena : Arena entity α) (change : α → β) :
    (arena.map change).entries = arena.entries.map (Prod.map id change) := by
  have hids : (arena.map change).ids = arena.ids := by
    simp [ids, size, Table.size, map, Table.mapValues]
  rw [entries, entries, hids, items_map, List.zip_map_right]

@[simp] theorem get?_map (arena : Arena entity α) (change : α → β) (id : Id entity) :
    (arena.map change).get? id = (arena.get? id).map change := by
  rw [get?, map, Table.values_mapValues, List.getElem?_map]
  rfl

theorem filterMap_get?_map (arena : Arena entity α) (change : α → β) (ids : List (Id entity)) :
    ids.filterMap (arena.map change).get? = (ids.filterMap arena.get?).map change := by
  rw [List.map_filterMap]
  exact List.filterMap_congr fun id _ => arena.get?_map change id

end Arena

/-! ## Boxed parts -/

@[simp] theorem Dependency.key_boxed (dependency : Dependency) :
    dependency.boxed.key = dependency.key.boxed := rfl

@[simp] theorem Dependency.delivery_boxed (dependency : Dependency) :
    dependency.boxed.delivery = dependency.delivery := rfl

@[simp] theorem Getter.injectee_boxed (getter : Getter) :
    getter.boxed.injectee = getter.injectee.boxed := rfl

@[simp] theorem Contract.key_boxed (contract : Contract) : contract.boxed.key = contract.key := rfl

@[simp] theorem Factory.key_boxed (factory : Factory) : factory.boxed.key = factory.key := rfl

namespace ProvisionPoint

@[simp] theorem key_boxed (point : ProvisionPoint) : point.boxed.key = point.key.boxed := rfl

@[simp] theorem injectees_boxed (point : ProvisionPoint) :
    point.boxed.injectees = point.injectees.map Dependency.boxed := by
  unfold injectees boxed Origin.boxed
  cases point.origin <;> rfl

@[simp] theorem display_boxed (point : ProvisionPoint) :
    point.boxed.display = point.display := by
  unfold display boxed Origin.boxed
  cases point.origin <;> rfl

end ProvisionPoint

theorem FactoryMethod.injected_boxed (method : FactoryMethod) :
    method.boxed.arguments.filterMap FactoryArgument.injected? =
      (method.arguments.filterMap FactoryArgument.injected?).map Dependency.boxed := by
  rw [boxed, List.filterMap_map, List.map_filterMap]
  refine List.filterMap_congr fun argument _ => ?_
  cases argument <;> rfl

namespace ObjectGraph

variable (graph : ObjectGraph)

@[simp] theorem containers_boxed : graph.boxed.containers = graph.containers := rfl

theorem get?_modules_boxed (id : Id .module) :
    graph.boxed.modules.get? id = (graph.modules.get? id).map Module.boxed :=
  graph.modules.get?_map Module.boxed id

theorem get?_factories_boxed (id : Id .factory) :
    graph.boxed.factories.get? id = (graph.factories.get? id).map Factory.boxed :=
  graph.factories.get?_map Factory.boxed id

theorem get?_contracts_boxed (id : Id .contract) :
    graph.boxed.contracts.get? id = (graph.contracts.get? id).map Contract.boxed :=
  graph.contracts.get?_map Contract.boxed id

theorem filterMap_factories_boxed (ids : List (Id .factory)) :
    ids.filterMap graph.boxed.factories.get? =
      (ids.filterMap graph.factories.get?).map Factory.boxed :=
  graph.factories.filterMap_get?_map Factory.boxed ids

theorem filterMap_contracts_boxed (ids : List (Id .contract)) :
    ids.filterMap graph.boxed.contracts.get? =
      (ids.filterMap graph.contracts.get?).map Contract.boxed :=
  graph.contracts.filterMap_get?_map Contract.boxed ids

theorem effectiveModules_boxed (root : Id .module) :
    graph.boxed.effectiveModules root = (graph.effectiveModules root).map Module.boxed := by
  have hnext : graph.boxed.importSpace.next = graph.importSpace.next := by
    funext id
    change importedModules _ id = importedModules _ id
    rw [importedModules, importedModules, graph.get?_modules_boxed]
    cases graph.modules.get? id <;> rfl
  have hids : graph.boxed.effectiveIds root = graph.effectiveIds root :=
    SearchSpace.visit_congr hnext _ _
  rw [effectiveModules, hids]
  exact graph.modules.filterMap_get?_map Module.boxed _

theorem hostedFactories_boxed (module : Module) :
    graph.boxed.hostedFactories module.boxed = (graph.hostedFactories module).map Factory.boxed :=
  graph.filterMap_factories_boxed module.factories

theorem hostedContracts_boxed (module : Module) :
    graph.boxed.hostedContracts module.boxed =
      (graph.hostedContracts module).map Contract.boxed :=
  graph.filterMap_contracts_boxed module.contracts

end ObjectGraph

/-! ## What is shown of a wiring -/

namespace Wiring

/-- A wiring as it shows in messages: who provides and who requires a key stands there as text. -/
def shown (wiring : Wiring) : List (Key × String) × List (Key × String) × List (Key × Key) :=
  (wiring.provided.map (Prod.map id Source.display),
    wiring.required.map (Prod.map id Requirer.display), wiring.edges)

theorem shown_append_congr {a b c d : Wiring} (hleft : a.shown = b.shown)
    (hright : c.shown = d.shown) : (a ++ c).shown = (b ++ d).shown := by
  simp only [shown, Prod.mk.injEq, provided_append, required_append, edges_append,
    List.map_append] at hleft hright ⊢
  simp only [hleft, hright, and_self]

theorem shown_join_congr {wirings others : List Wiring}
    (h : wirings.map shown = others.map shown) : (join wirings).shown = (join others).shown := by
  induction wirings generalizing others with
  | nil =>
      rw [List.map_nil, eq_comm, List.map_eq_nil_iff] at h
      rw [h]
  | cons wiring wirings ih =>
      cases others with
      | nil => cases h
      | cons other others =>
          obtain ⟨hhead, htail⟩ := List.cons.inj h
          have hcons : ∀ (wiring : Wiring) wirings, join (wiring :: wirings) =
              wiring ++ join wirings := fun _ _ => ext rfl rfl rfl
          rw [hcons, hcons]
          exact shown_append_congr hhead (ih htail)

theorem shown_join_map_congr {α β : Type} {part : α → Wiring} {other : β → Wiring} {box : β → α}
    (h : ∀ x, (part (box x)).shown = (other x).shown) (xs : List β) :
    (join ((xs.map box).map part)).shown = (join (xs.map other)).shown := by
  refine shown_join_congr ?_
  rw [List.map_map, List.map_map, List.map_map]
  exact List.map_congr_left fun x _ => h x

/-! ## Boxed wirings -/

theorem order_boxed (dependent : Key) (dependency : Dependency) :
    order dependent dependency.boxed = order dependent dependency := by
  simp [order]

theorem order_key_boxed (dependent : Key) (dependency : Dependency) :
    order dependent.boxed dependency = order dependent dependency := by
  simp [order]

theorem shown_provide {key : Key} {source other : Source} (h : source.display = other.display) :
    (provide key.boxed source).shown = (provide key other).shown := by
  simp [shown, provide, h]

theorem shown_require {dependency : Dependency} {requirer other : Requirer}
    (h : requirer.display = other.display) :
    (require dependency.boxed requirer).shown = (require dependency other).shown := by
  simp [shown, require, h]

theorem shown_ofPoint (module : ClassName) (point : ProvisionPoint) :
    (ofPoint module point.boxed).shown = (ofPoint module point).shown := by
  unfold ofPoint
  rw [ProvisionPoint.injectees_boxed]
  refine shown_append_congr (shown_provide ?_) (shown_join_map_congr (fun injectee => ?_) _)
  · simp only [Source.display, ProvisionPoint.display_boxed]
  · refine shown_append_congr (shown_require point.display_boxed) (congrArg shown ?_)
    exact (order_key_boxed ..).trans (order_boxed ..)

theorem shown_ofFactory (module : ClassName) (factory : Factory) :
    (ofFactory module factory.boxed).shown = (ofFactory module factory).shown := by
  refine shown_append_congr rfl (shown_join_map_congr (fun method => ?_) _)
  rw [FactoryMethod.injected_boxed]
  refine shown_join_map_congr (fun dependency => ?_) _
  exact shown_require rfl

theorem shown_ofContract (module : ClassName) (contract : Contract) :
    (ofContract module contract.boxed).shown = (ofContract module contract).shown := by
  refine shown_append_congr rfl (shown_join_map_congr (fun getter => ?_) _)
  exact shown_append_congr (shown_require rfl) (congrArg shown (order_boxed ..))

theorem shown_ofImport (contract : Contract) (site : ImportSite) :
    (ofImport contract.boxed site).shown = (ofImport contract site).shown := by
  refine shown_append_congr rfl (shown_join_map_congr (fun getter => ?_) _)
  exact shown_provide rfl

theorem shown_ofModule (graph : ObjectGraph) (module : Module) (bindings : List Binding)
    (imports : List (Id .contract × ImportSite)) :
    (ofModule graph.boxed module.boxed bindings imports).shown =
      (ofModule graph module bindings imports).shown := by
  unfold ofModule
  rw [graph.hostedFactories_boxed, graph.hostedContracts_boxed]
  refine shown_append_congr (shown_append_congr (shown_append_congr (shown_append_congr ?_ rfl)
    (shown_join_map_congr (shown_ofFactory module.name) _))
    (shown_join_map_congr (shown_ofContract module.name) _)) (shown_join_congr ?_)
  · exact shown_join_map_congr (shown_ofPoint module.name) _
  · rw [List.map_filterMap, List.map_filterMap]
    refine List.filterMap_congr fun (id, site) _ => ?_
    dsimp only
    rw [graph.get?_contracts_boxed]
    cases graph.contracts.get? id with
    | none => rfl
    | some contract => exact congrArg some (shown_ofImport contract site)

theorem shown_ofModules (graph : ObjectGraph) (bindings : List Binding)
    (contracts : List (Id .contract)) (modules : List Module) :
    (ofModules graph.boxed bindings contracts (modules.map Module.boxed)).shown =
      (ofModules graph bindings contracts modules).shown := by
  induction modules generalizing bindings contracts with
  | nil => rfl
  | cons module modules ih =>
      exact shown_append_congr (shown_ofModule graph module _ _) (ih _ _)

theorem shown_ofRoot (graph : ObjectGraph) (root : Id .module) :
    (ofRoot graph.boxed root).shown = (ofRoot graph root).shown := by
  rw [ofRoot, ofRoot, graph.effectiveModules_boxed]
  exact shown_append_congr rfl (shown_ofModules graph [] [] _)

end Wiring

/-! ## Faults -/

namespace Wiring

variable {wiring other : Wiring} (h : wiring.shown = other.shown)

theorem map_entries_group {α : Type} (display : α → String) (entries : List (Key × α)) :
    (Table.group Prod.fst entries).entries.map
        (fun entry => (entry.1, entry.2.map fun held => display held.2)) =
      (Table.group Prod.fst (entries.map (Prod.map id display))).entries.map
        fun entry => (entry.1, entry.2.map Prod.snd) := by
  rw [Table.group_map]
  simp only [Table.mapValues, List.map_map]
  refine List.map_congr_left fun entry _ => ?_
  simp

include h

theorem sources_congr :
    wiring.sources.map (Prod.map id (List.map Source.display)) =
      other.sources.map (Prod.map id (List.map Source.display)) := by
  have hshown : ∀ wiring : Wiring, wiring.sources.map (Prod.map id (List.map Source.display)) =
      (Table.group Prod.fst wiring.shown.1).entries.map
        fun entry => (entry.1, entry.2.map Prod.snd) := by
    intro wiring
    rw [shown, ← map_entries_group Source.display wiring.provided, sources, List.map_map]
    refine List.map_congr_left fun entry _ => ?_
    simp
  rw [hshown, hshown, h]

theorem duplicates_congr :
    wiring.duplicates.map (Prod.map id (List.map Source.display)) =
      other.duplicates.map (Prod.map id (List.map Source.display)) := by
  have hfiltered : ∀ wiring : Wiring,
      wiring.duplicates.map (Prod.map id (List.map Source.display)) =
        (wiring.sources.map (Prod.map id (List.map Source.display))).filter
          fun entry => entry.2.length > 1 := by
    intro wiring
    rw [duplicates, List.filter_map]
    simp [Function.comp_def]
  rw [hfiltered, hfiltered, sources_congr h]

theorem resolves_congr_of_shown (key : Key) : wiring.resolves key = other.resolves key := by
  have hkeys : ∀ wiring : Wiring, wiring.provided.map Prod.fst = wiring.shown.1.map Prod.fst := by
    intro wiring
    simp [shown]
  rw [resolves, resolves, hkeys, hkeys, h]

theorem unresolved_congr :
    wiring.unresolved.map (Prod.map id (List.map Requirer.display)) =
      other.unresolved.map (Prod.map id (List.map Requirer.display)) := by
  have hfiltered : ∀ wiring : Wiring,
      wiring.unresolved.map (Prod.map id (List.map Requirer.display)) =
        ((Table.group Prod.fst wiring.shown.2.1).entries.map
          fun entry => (entry.1, entry.2.map Prod.snd)).filter
            fun entry => !wiring.resolves entry.1 := by
    intro wiring
    rw [shown, ← map_entries_group Requirer.display wiring.required, unresolved, List.filter_map,
      List.map_map]
    refine List.map_congr_left fun entry _ => ?_
    simp
  rw [hfiltered, hfiltered, h, funext (resolves_congr_of_shown h)]

end Wiring

namespace Container

/-- The messages about duplicate keys, about missing ones and about cycles. -/
def messages (container : Container) (wiring : Wiring) :
    List String × List String × List String :=
  (wiring.duplicates.map fun (key, sources) => container.duplicateFault key sources,
    wiring.unresolved.map fun (key, requirers) => container.missingFault key requirers,
    wiring.cycles.map container.cycleFault)

theorem faults_eq_messages (container : Container) (wiring : Wiring) (checkCycles : Bool) :
    container.faults wiring checkCycles =
      (container.messages wiring).1 ++ (container.messages wiring).2.1 ++
        if checkCycles then (container.messages wiring).2.2 else [] := rfl

theorem messages_congr {wiring other : Wiring} (h : wiring.shown = other.shown)
    (container : Container) : container.messages wiring = container.messages other := by
  have hduplicates := congrArg (List.map fun entry : Key × List String =>
    "Dependency " ++ entry.1.display ++ " provided multiple times in a single " ++
      container.kind.display ++ " hierarchy " ++ container.name.display ++ ":\n" ++
      "\n".intercalate (numbered entry.2)) (Wiring.duplicates_congr h)
  have hunresolved := congrArg (List.map fun entry : Key × List String =>
    "Missing dependency " ++ entry.1.display ++ " in " ++ container.title ++
      ", required by:\n  " ++ "\n  ".intercalate entry.2) (Wiring.unresolved_congr h)
  have hedges : wiring.edges = other.edges := congrArg (fun shown => shown.2.2) h
  rw [List.map_map, List.map_map] at hduplicates hunresolved
  unfold messages Wiring.cycles
  rw [hedges]
  exact Prod.ext hduplicates (Prod.ext hunresolved rfl)

theorem messages_boxed (graph : ObjectGraph) (container : Container) :
    container.messages (.ofRoot graph.boxed container.module) =
      container.messages (.ofRoot graph container.module) :=
  messages_congr (Wiring.shown_ofRoot graph container.module) container

end Container

end InjectionCompiler
