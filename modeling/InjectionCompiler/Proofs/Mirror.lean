import InjectionCompiler.Proofs.Boxing
import InjectionCompiler.Proofs.Draft

/-!
# Plans of boxed graphs

A plan for a boxed graph is made step by step like one for the graph itself.  The providers bear the
same names and have boxed media.
-/

namespace InjectionCompiler

/-! ## Boxed providers -/

def Medium.boxed : Medium → Medium
  | .provisionPoint point => .provisionPoint point.boxed
  | .binding bound => .binding bound
  | .factory id => .factory id
  | .contract id => .contract id
  | .getter id lazy served => .getter id lazy served.boxed

def Provider.boxed (provider : Provider) : Provider :=
  { provider with medium := provider.medium.boxed }

def Assignment.boxed (assignment : Assignment) : Assignment :=
  { assignment with
    modules := assignment.modules.mapValues (List.map Provider.boxed)
    constructors := assignment.constructors.mapValues Provider.boxed
    bindings := assignment.bindings.mapValues Provider.boxed
    factories := assignment.factories.mapValues Provider.boxed
    contracts := assignment.contracts.mapValues Provider.boxed
    getters := assignment.getters.mapValues (List.map Provider.boxed) }

def Plan.boxed (plan : Plan) : Plan :=
  { plan with
    byModule := plan.byModule.mapValues (List.map Provider.boxed)
    byContract := plan.byContract.mapValues (List.map Provider.boxed)
    providers := plan.providers.map Provider.boxed }

namespace Assignment

theorem shared?_boxed (assignment : Assignment) (provision : Provision) :
    assignment.boxed.shared? provision = (assignment.shared? provision).map Provider.boxed := by
  cases provision with
  | constructor | binding | factory | contract => exact Table.find?_mapValues ..
  | method | field | getter => rfl

theorem remember_boxed (assignment : Assignment) (provider : Provider) (provision : Provision) :
    assignment.boxed.remember provider.boxed provision =
      (assignment.remember provider provision).boxed := by
  cases provision with
  | constructor | binding | factory | contract =>
      simp only [remember, boxed, Table.mapValues_insert]
  | method | field | getter => rfl

end Assignment

/-! ## Work in step -/

namespace Assigning

/-- From a boxed assignment, the other work ends like the work does from the assignment itself. -/
def Mirrors {α β : Type} (change : α → β) (before : Assignment) (work : Assigning α)
    (other : Assigning β) : Prop :=
  other.outcome before.boxed = ((work.outcome before).1.map change, (work.outcome before).2.boxed)

namespace Mirrors

variable {α β γ δ : Type} {change : α → β} {map : γ → δ} {before : Assignment}
  {work : Assigning α} {other : Assigning β}

theorem pure (value : α) : Mirrors change before (pure value) (pure (change value)) := rfl

theorem bind {next : α → Assigning γ} {follow : β → Assigning δ}
    (h : Mirrors change before work other)
    (hnext : ∀ value between, Mirrors map between (next value) (follow (change value))) :
    Mirrors map before (work >>= next) (other >>= follow) := by
  unfold Mirrors at h hnext ⊢
  rw [outcome_bind, outcome_bind, h]
  rcases work.outcome before with ⟨failure | value, between⟩
  · rfl
  · exact hnext value between

theorem bind_get {next : Assignment → Assigning γ} {follow : Assignment → Assigning δ}
    (h : Mirrors map before (next before) (follow before.boxed)) :
    Mirrors map before (get >>= next) (get >>= follow) := by
  unfold Mirrors at h ⊢
  rw [outcome_bind, outcome_bind, outcome_get, outcome_get]
  exact h

theorem bind_logged {logged : Logged α} {told : Logged β} {next : α → Assigning γ}
    {follow : β → Assigning δ}
    (h : Mirrors map before (next logged.value) (follow told.value)) :
    Mirrors map before (liftM logged >>= next) (liftM told >>= follow) := by
  unfold Mirrors at h ⊢
  rw [outcome_bind, outcome_bind, outcome_logged, outcome_logged]
  exact h

theorem bind_modify {update repeated : Assignment → Assignment} {next : PUnit → Assigning γ}
    {follow : PUnit → Assigning δ} (hupdate : repeated before.boxed = (update before).boxed)
    (h : Mirrors map (update before) (next .unit) (follow .unit)) :
    Mirrors map before (modify update >>= next) (modify repeated >>= follow) := by
  unfold Mirrors at h ⊢
  rw [outcome_bind, outcome_bind, outcome_modify, outcome_modify, hupdate]
  exact h

theorem bind_except {result : Except Failure α} {next : α → Assigning γ}
    {follow : α → Assigning δ} (h : ∀ value, Mirrors map before (next value) (follow value)) :
    Mirrors map before (liftM result >>= next) (liftM result >>= follow) := by
  unfold Mirrors at h ⊢
  rw [outcome_bind, outcome_bind, outcome_except, outcome_except]
  cases result with
  | error failure => rfl
  | ok value => exact h value

theorem mapM {box : α → β} {act : α → Assigning γ} {again : β → Assigning δ}
    (h : ∀ x before, Mirrors map before (act x) (again (box x))) (xs : List α)
    (before : Assignment) :
    Mirrors (List.map map) before (xs.mapM act) ((xs.map box).mapM again) := by
  induction xs generalizing before with
  | nil => exact .pure []
  | cons x xs ih =>
      rw [List.map_cons, List.mapM_cons, List.mapM_cons]
      exact (h x before).bind fun y between => (ih between).bind fun ys _ => .pure (y :: ys)

end Mirrors

/-! ## Providers -/

theorem mirrors_takeName (choose : NameSupply → Except Failure (ClassName × NameSupply))
    (before : Assignment) : Mirrors id before (takeName choose) (takeName choose) := by
  refine .bind_get ?_
  rw [show before.boxed.names = before.names from rfl]
  cases choose before.names with
  | error failure => rfl
  | ok taken => exact .bind_modify rfl (.pure taken.1)

theorem mirrors_newProvider (owner : ClassName) (kind : String) (medium : Medium)
    (before : Assignment) :
    Mirrors Provider.boxed before (newProvider owner kind medium)
      (newProvider owner kind medium.boxed) := by
  refine Mirrors.bind (.bind_get ?_) fun name _ => Mirrors.pure (⟨name, medium⟩ : Provider)
  exact mirrors_takeName _ before

theorem mirrors_provide (provision : Provision) (medium : Medium) (before : Assignment) :
    Mirrors Provider.boxed before (provide provision medium) (provide provision medium.boxed) := by
  refine .bind_get ?_
  rw [before.shared?_boxed]
  cases before.shared? provision with
  | some provider => exact .pure provider
  | none =>
      refine .bind_except fun owner => ?_
      refine (mirrors_newProvider owner provision.kind medium before).bind
        fun provider between => ?_
      exact .bind_modify (between.remember_boxed provider provision) (.pure provider)

theorem mirrors_provideAll (entries : List (Provision × Medium)) (before : Assignment) :
    Mirrors (List.map Provider.boxed) before (provideAll entries)
      (provideAll (entries.map (Prod.map id Medium.boxed))) := by
  refine Mirrors.mapM (fun entry before => ?_) entries before
  exact mirrors_provide entry.1 entry.2 before

end Assigning

/-! ## Modules and imported contracts -/

section

variable (graph : ObjectGraph)

theorem ProvisionPoint.provision_boxed (module : ClassName) (index : Nat)
    (point : ProvisionPoint) :
    point.boxed.provision module index = point.provision module index := by
  unfold provision boxed Origin.boxed
  cases point.origin <;> rfl

namespace Module

variable (module : Module)

theorem knownFactories_boxed : module.boxed.knownFactories graph.boxed =
    (module.knownFactories graph).map (Prod.map id Factory.boxed) := by
  unfold knownFactories
  rw [List.map_filterMap]
  refine List.filterMap_congr fun id _ => ?_
  rw [graph.get?_factories_boxed]
  cases graph.factories.get? id <;> rfl

theorem knownContracts_boxed : module.boxed.knownContracts graph.boxed =
    (module.knownContracts graph).map (Prod.map id Contract.boxed) := by
  unfold knownContracts
  rw [List.map_filterMap]
  refine List.filterMap_congr fun id _ => ?_
  rw [graph.get?_contracts_boxed]
  cases graph.contracts.get? id <;> rfl

theorem entries_boxed : module.boxed.entries graph.boxed =
    (module.entries graph).map (Prod.map id Medium.boxed) := by
  unfold entries
  rw [module.knownFactories_boxed, module.knownContracts_boxed]
  simp only [boxed, List.map_append, List.map_map, List.zipIdx_map]
  refine congrArg₂ (· ++ ·) (congrArg₂ (· ++ ·) (congrArg₂ (· ++ ·) ?_ rfl) rfl) rfl
  refine List.map_congr_left fun (point, index) _ => ?_
  exact Prod.ext (point.provision_boxed module.name index) rfl

end Module

theorem Contract.entries_boxed (imported : Id .contract) (lazy : Bool) (contract : Contract) :
    contract.boxed.entries imported lazy =
      (contract.entries imported lazy).map (Prod.map id Medium.boxed) := by
  simp only [entries, boxed, List.map_map, List.zipIdx_map]
  exact List.map_congr_left fun _ _ => rfl

end

namespace Assigning

variable (graph : ObjectGraph)

theorem mirrors_ofModule (module : Module) (before : Assignment) :
    Mirrors (List.map Provider.boxed) before (ofModule graph module)
      (ofModule graph.boxed module.boxed) := by
  rw [ofModule_eq, ofModule_eq]
  refine .bind_get ?_
  have hfind : before.boxed.modules.find? module.boxed.name =
      (before.modules.find? module.name).map (List.map Provider.boxed) :=
    Table.find?_mapValues ..
  rw [hfind]
  cases before.modules.find? module.name with
  | some providers => exact Mirrors.pure providers
  | none =>
      rw [module.entries_boxed graph]
      refine (mirrors_provideAll (module.entries graph) before).bind fun providers between => ?_
      refine .bind_logged (.bind_modify ?_ (.pure providers))
      simp only [Assignment.boxed, Table.mapValues_insert]
      rfl

theorem mirrors_ofImport (id : Id .contract) (contract : Contract) (lazy : Bool)
    (before : Assignment) :
    Mirrors (List.map Provider.boxed) before (ofImport id contract lazy)
      (ofImport id contract.boxed lazy) := by
  rw [ofImport_eq, ofImport_eq]
  refine .bind_get ?_
  have hfind : before.boxed.getters.find? (contract.boxed.name, lazy) =
      (before.getters.find? (contract.name, lazy)).map (List.map Provider.boxed) :=
    Table.find?_mapValues ..
  rw [hfind]
  cases before.getters.find? (contract.name, lazy) with
  | some providers => exact Mirrors.pure providers
  | none =>
      rw [contract.entries_boxed id lazy]
      refine (mirrors_provideAll (contract.entries id lazy) before).bind fun providers between => ?_
      refine .bind_modify ?_ (.pure providers)
      simp only [Assignment.boxed, Table.mapValues_insert]
      rfl

end Assigning

/-! ## The input -/

namespace ObjectGraph

variable (graph : ObjectGraph) (path : ClassPath)

theorem inputModules_boxed :
    graph.boxed.inputModules path = (graph.inputModules path).map Module.boxed := by
  unfold inputModules
  rw [show graph.boxed.modules.items = graph.modules.items.map Module.boxed from
    Arena.items_map .., List.filter_map]
  rfl

theorem inputImports_boxed : graph.boxed.inputImports path =
    (graph.inputImports path).map (Prod.map id (Prod.map Contract.boxed id)) := by
  have himported : Assigning.importedContracts (graph.boxed.inputModules path) =
      Assigning.importedContracts (graph.inputModules path) := by
    rw [graph.inputModules_boxed, Assigning.importedContracts, List.flatMap_map]
    rfl
  unfold inputImports
  rw [himported, List.map_filterMap]
  refine List.filterMap_congr fun imported _ => ?_
  dsimp only
  rw [graph.get?_contracts_boxed]
  cases graph.contracts.get? imported.1 <;> rfl

end ObjectGraph

namespace Assigning

abbrev Listing := ClassName × List Provider

def Listing.boxed (listing : Listing) : Listing :=
  (listing.1, listing.2.map Provider.boxed)

theorem mirrors_listing (name : ClassName) {before : Assignment}
    {work other : Assigning (List Provider)}
    (h : Mirrors (List.map Provider.boxed) before work other) :
    Mirrors Listing.boxed before (do return (name, ← work)) (do return (name, ← other)) :=
  h.bind fun providers _ => .pure (name, providers)

theorem mirrors_ofRequests (path : ClassPath) (graph : ObjectGraph) (before : Assignment) :
    Mirrors (Prod.map (List.map Listing.boxed) (List.map Listing.boxed)) before
      (ofRequests path graph) (ofRequests path graph.boxed) := by
  unfold ofRequests
  rw [graph.inputModules_boxed, graph.inputImports_boxed]
  refine @Mirrors.bind _ _ _ _ (List.map Listing.boxed) _ _ _ _ _ _ ?_ fun listed between =>
    @Mirrors.bind _ _ _ _ (List.map Listing.boxed) _ _ _ _ _ _ ?_ fun imported _ =>
      .pure (listed, imported)
  · exact Mirrors.mapM (fun module before =>
      mirrors_listing module.name (mirrors_ofModule graph module before)) _ before
  · refine Mirrors.mapM (fun entry before => ?_) _ between
    obtain ⟨id, contract, lazy⟩ := entry
    exact mirrors_listing contract.name (mirrors_ofImport id contract lazy before)

end Assigning

/-! ## Plans -/

theorem Provider.key?_boxed (graph : ObjectGraph) (provider : Provider) :
    (provider.boxed.key? graph.boxed).map Key.boxed = (provider.key? graph).map Key.boxed := by
  obtain ⟨name, medium⟩ := provider
  cases medium with
  | provisionPoint point => simp [key?, boxed, Medium.boxed]
  | binding bound => rfl
  | factory id =>
      simp only [key?, boxed, Medium.boxed, graph.get?_factories_boxed]
      cases graph.factories.get? id <;> rfl
  | contract id =>
      simp only [key?, boxed, Medium.boxed, graph.get?_contracts_boxed]
      cases graph.contracts.get? id <;> rfl
  | getter id lazy served => simp [key?, boxed, Medium.boxed]

namespace Plan

variable (graph : ObjectGraph)

theorem boxed_providerKeys (provider : Provider) :
    (providerKeys graph.boxed provider.boxed).map Key.boxed =
      (providerKeys graph provider).map Key.boxed := by
  have hown : (provider.boxed.key? graph.boxed).toList.map Key.boxed =
      (provider.key? graph).toList.map Key.boxed := by
    rw [← Option.toList_map, ← Option.toList_map, provider.key?_boxed]
  unfold providerKeys
  rw [List.map_append, List.map_append, hown]
  obtain ⟨name, medium⟩ := provider
  refine congrArg _ ?_
  cases medium with
  | provisionPoint point => simp [Provider.boxed, Medium.boxed]
  | binding | factory | contract => rfl
  | getter id lazy served =>
      simp only [Provider.boxed, Medium.boxed, graph.get?_contracts_boxed]
      cases graph.contracts.get? id <;> rfl

theorem boxed_contractKeys (contract : Contract) :
    (contractKeys contract.boxed).map Key.boxed = (contractKeys contract).map Key.boxed := by
  simp [contractKeys, Contract.boxed]

theorem boxed_factoryKeys (factory : Factory) :
    (factoryKeys factory.boxed).map Key.boxed = (factoryKeys factory).map Key.boxed := by
  have hmethod : ∀ method : FactoryMethod,
      ((method.boxed.arguments.filterMap FactoryArgument.injected?).map Dependency.key).map
          Key.boxed =
        ((method.arguments.filterMap FactoryArgument.injected?).map Dependency.key).map
          Key.boxed := by
    intro method
    rw [method.injected_boxed]
    simp
  unfold factoryKeys
  rw [List.map_cons, List.map_cons, List.map_flatMap, List.map_flatMap, factory.key_boxed]
  refine congrArg _ ?_
  rw [Factory.boxed, List.flatMap_map]
  exact List.flatMap_congr fun method _ => hmethod method

theorem collectKeys_boxed (providers : List Provider) (contracts : List (Id .contract))
    (factories : List (Id .factory)) :
    collectKeys graph.boxed (providers.map Provider.boxed) contracts factories =
      collectKeys graph providers contracts factories := by
  unfold collectKeys
  rw [graph.filterMap_contracts_boxed, graph.filterMap_factories_boxed]
  simp only [List.map_append, List.map_flatMap, List.flatMap_map, boxed_providerKeys,
    boxed_contractKeys, boxed_factoryKeys]

theorem keys_boxed (plan : Plan) : plan.boxed.keys graph.boxed = plan.keys graph :=
  collectKeys_boxed graph plan.providers plan.contracts plan.factories

theorem draft_boxed (path : ClassPath) (entries : List Assigning.Listing × List Assigning.Listing) :
    draft path graph.boxed
        (entries.map (List.map Assigning.Listing.boxed) (List.map Assigning.Listing.boxed)) =
      (draft path graph entries).boxed := by
  have hlisted : ∀ listings : List Assigning.Listing,
      Table.ofList (listings.map Assigning.Listing.boxed) =
        (Table.ofList listings).mapValues (List.map Provider.boxed) :=
    fun listings => (Table.mapValues_ofList listings _).symm
  have hflatten : ∀ table : Table ClassName (List Provider),
      (table.mapValues (List.map Provider.boxed)).values.flatten =
        table.values.flatten.map Provider.boxed := by
    intro table
    rw [Table.values_mapValues, List.map_flatten]
  have hcontracts : (graph.boxed.inputModules path).flatMap Module.contracts =
      (graph.inputModules path).flatMap Module.contracts := by
    rw [graph.inputModules_boxed, List.flatMap_map]
    rfl
  have hfactories : ((graph.boxed.factories.entries.filter fun entry =>
      path.isInput entry.2.name).map Prod.fst) =
      (graph.factories.entries.filter fun entry => path.isInput entry.2.name).map Prod.fst := by
    rw [show graph.boxed.factories.entries = graph.factories.entries.map (Prod.map id Factory.boxed)
      from graph.factories.entries_map Factory.boxed, List.filter_map, List.map_map]
    rfl
  unfold draft
  simp only [Prod.map_fst, Prod.map_snd, hlisted, hflatten, hcontracts, hfactories,
    ← List.map_append, firsts_map, collectKeys_boxed]
  rfl

end Plan

namespace Assigning

theorem mirrors_composeInvaders (path : ClassPath) (keys : List Key) (before : Assignment) :
    Mirrors id before (composeInvaders path keys) (composeInvaders path keys) := by
  have hmapM : ∀ {α β : Type} {act again : α → Assigning β}, (∀ x before,
      Mirrors id before (act x) (again x)) → ∀ (xs : List α) before,
      Mirrors id before (xs.mapM act) (xs.mapM again) := by
    intro α β act again h xs before
    simpa only [List.map_id, List.map_id_fun] using
      @Mirrors.mapM _ _ _ _ id id act again h xs before
  refine .bind_get ?_
  refine hmapM (fun (package, names) before => ?_) _ before
  exact (mirrors_takeName _ before).bind fun name _ =>
    .pure (⟨name, package, invaderFields names⟩ : PackageInvader)

theorem mirrors_composeRegistry (keys : List Key) (before : Assignment) :
    Mirrors id before (composeRegistry keys) (composeRegistry keys) := by
  refine .bind_get ?_
  refine Mirrors.bind (mirrors_takeName _ before) fun name _ => ?_
  exact .pure (⟨name, Table.ofList _⟩ : KeyRegistry)

theorem mirrors_composePlan (path : ClassPath) (graph : ObjectGraph) (before : Assignment) :
    Mirrors Plan.boxed before (composePlan path graph) (composePlan path graph.boxed) := by
  rw [composePlan_eq, composePlan_eq]
  refine (mirrors_ofRequests path graph before).bind fun entries between => ?_
  rw [Plan.draft_boxed]
  generalize Plan.draft path graph entries = draft
  have hhelpers : Mirrors id between
      (do
        let invaders ← composeInvaders path (draft.keys graph)
        let registry ← composeRegistry (draft.keys graph)
        return (invaders, registry))
      (do
        let invaders ← composeInvaders path (draft.boxed.keys graph.boxed)
        let registry ← composeRegistry (draft.boxed.keys graph.boxed)
        return (invaders, registry)) := by
    rw [draft.keys_boxed]
    exact (mirrors_composeInvaders path _ between).bind fun invaders middle =>
      (mirrors_composeRegistry _ middle).bind fun registry _ => .pure (invaders, registry)
  exact hhelpers.bind fun helpers _ => .bind_logged (.bind_logged (.pure
    { draft with invaders := helpers.1, registry := helpers.2 }))

end Assigning

end InjectionCompiler
