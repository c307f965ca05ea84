import InjectionCompiler.Proofs.Discovery
import InjectionCompiler.Proofs.NameSupply

/-!
# What is assigned

Whatever an assignment remembers stays right: the provider of a source is made for that source.  A
step only adds to what is remembered, so a binding keeps its provider to the end of the run.
-/

namespace InjectionCompiler

/-! ## The sources of a module -/

def ObjectGraph.HasPoint (graph : ObjectGraph) (point : ProvisionPoint) : Prop :=
  ∃ module ∈ graph.modules.items, point ∈ module.provisionPoints

namespace Module

/-- The hosted factories that are in range, with their ids. -/
def knownFactories (graph : ObjectGraph) (module : Module) : List (Id .factory × Factory) :=
  module.factories.filterMap fun id => (graph.factories.get? id).map fun factory => (id, factory)

/-- The hosted contracts that are in range, with their ids. -/
def knownContracts (graph : ObjectGraph) (module : Module) : List (Id .contract × Contract) :=
  module.contracts.filterMap fun id =>
    (graph.contracts.get? id).map fun contract => (id, contract)

def media (graph : ObjectGraph) (module : Module) : List Medium :=
  module.provisionPoints.map .provisionPoint ++ module.bindings.map .binding ++
    (module.knownFactories graph).map (fun entry => .factory entry.1) ++
    (module.knownContracts graph).map fun entry => .contract entry.1

theorem mem_media {graph : ObjectGraph} {module : Module} {medium : Medium} :
    medium ∈ module.media graph ↔
      (∃ point ∈ module.provisionPoints, .provisionPoint point = medium) ∨
        (∃ bound ∈ module.bindings, .binding bound = medium) ∨
        (∃ entry ∈ module.knownFactories graph, .factory entry.1 = medium) ∨
        ∃ entry ∈ module.knownContracts graph, .contract entry.1 = medium := by
  simp only [media, List.mem_append, List.mem_map, or_assoc]

theorem get?_of_mem_knownFactories {graph : ObjectGraph} {module : Module} {id : Id .factory}
    {factory : Factory} (h : (id, factory) ∈ module.knownFactories graph) :
    graph.factories.get? id = some factory := by
  obtain ⟨other, -, h⟩ := List.mem_filterMap.1 h
  obtain ⟨held, hheld, heq⟩ := Option.map_eq_some_iff.1 h
  cases heq
  exact hheld

theorem get?_of_mem_knownContracts {graph : ObjectGraph} {module : Module} {id : Id .contract}
    {contract : Contract} (h : (id, contract) ∈ module.knownContracts graph) :
    graph.contracts.get? id = some contract := by
  obtain ⟨other, -, h⟩ := List.mem_filterMap.1 h
  obtain ⟨held, hheld, heq⟩ := Option.map_eq_some_iff.1 h
  cases heq
  exact hheld

theorem map_snd_knownFactories (graph : ObjectGraph) (module : Module) :
    (module.knownFactories graph).map Prod.snd = graph.hostedFactories module := by
  simp [knownFactories, ObjectGraph.hostedFactories, List.map_filterMap, Function.comp_def]

theorem map_snd_knownContracts (graph : ObjectGraph) (module : Module) :
    (module.knownContracts graph).map Prod.snd = graph.hostedContracts module := by
  simp [knownContracts, ObjectGraph.hostedContracts, List.map_filterMap, Function.comp_def]

end Module

/-! ## Remembered providers -/

namespace Assignment

/-- The provider is made for the medium; the provider of a binding is the one remembered for it. -/
def Serves (assignment : Assignment) (medium : Medium) (provider : Provider) : Prop :=
  provider.medium = medium ∧
    ∀ binding, medium = .binding binding → assignment.bindings.find? binding = some provider

def Grows (before after : Assignment) : Prop :=
  ∀ binding provider, before.bindings.find? binding = some provider →
    after.bindings.find? binding = some provider

theorem Grows.refl (assignment : Assignment) : Grows assignment assignment :=
  fun _ _ h => h

theorem Grows.trans {a b c : Assignment} (hab : Grows a b) (hbc : Grows b c) : Grows a c :=
  fun binding provider h => hbc binding provider (hab binding provider h)

theorem Serves.grow {before after : Assignment} {medium : Medium} {provider : Provider}
    (hgrows : Grows before after) (h : before.Serves medium provider) :
    after.Serves medium provider :=
  ⟨h.1, fun binding hmedium => hgrows _ _ (h.2 binding hmedium)⟩

theorem map_medium_of_serves {assignment : Assignment} {media : List Medium}
    {providers : List Provider} (h : List.Forall₂ assignment.Serves media providers) :
    providers.map Provider.medium = media := by
  induction h with
  | nil => rfl
  | cons hserves _ ih => rw [List.map_cons, hserves.1, ih]

/-- Everything that is remembered was assigned for what it is remembered under. -/
structure Sound (graph : ObjectGraph) (assignment : Assignment) : Prop where
  constructors : ∀ owner provider, assignment.constructors.find? owner = some provider →
    ∃ point, graph.HasPoint point ∧ point.IsConstructor ∧ point.owner = owner ∧
      provider.medium = .provisionPoint point
  bindings : ∀ binding provider, assignment.bindings.find? binding = some provider →
    provider.medium = .binding binding
  factories : ∀ name provider, assignment.factories.find? name = some provider →
    ∃ id factory, graph.factories.get? id = some factory ∧ factory.name = name ∧
      provider.medium = .factory id
  contracts : ∀ name provider, assignment.contracts.find? name = some provider →
    ∃ id contract, graph.contracts.get? id = some contract ∧ contract.name = name ∧
      provider.medium = .contract id
  modules : ∀ name providers, assignment.modules.find? name = some providers →
    ∃ module ∈ graph.modules.items, module.name = name ∧
      List.Forall₂ assignment.Serves (module.media graph) providers
  getters : ∀ key providers, assignment.getters.find? key = some providers →
    ∃ id contract, graph.contracts.get? id = some contract ∧ contract.name = key.1 ∧
      providers.map Provider.medium = contract.getters.map (.getter id key.2)

theorem sound_ofCompiled (graph : ObjectGraph) (project : String) (compiled : List ClassName) :
    (ofCompiled project compiled).Sound graph := by
  constructor <;> intros <;> contradiction

theorem forall_find?_insert {κ α : Type} [DecidableEq κ] {table : Table κ α}
    {Holds : κ → α → Prop} (h : ∀ key item, table.find? key = some item → Holds key item) {key : κ}
    {item : α} (hitem : Holds key item) :
    ∀ other held, (table.insert key item).find? other = some held → Holds other held := by
  intro other held hheld
  rw [Table.find?_insert] at hheld
  split at hheld
  · next heq =>
      cases hheld
      rw [heq]
      exact hitem
  · exact h other held hheld

theorem Sound.withNames {graph : ObjectGraph} {assignment : Assignment}
    (h : assignment.Sound graph) (names : NameSupply) :
    Sound graph { assignment with names := names } :=
  ⟨h.constructors, h.bindings, h.factories, h.contracts, h.modules, h.getters⟩

theorem grows_insert {assignment : Assignment} {binding : Binding} {provider : Provider}
    (hnew : assignment.bindings.find? binding = none) :
    Grows assignment
      { assignment with bindings := assignment.bindings.insert binding provider } := by
  intro other held hheld
  have hne : other ≠ binding := by
    rintro rfl
    rw [hnew] at hheld
    cases hheld
  rw [Table.find?_insert, if_neg hne]
  exact hheld

theorem Sound.insertBinding {graph : ObjectGraph} {assignment : Assignment}
    (h : assignment.Sound graph) {binding : Binding} {provider : Provider}
    (hnew : assignment.bindings.find? binding = none)
    (hmedium : provider.medium = .binding binding) :
    Sound graph { assignment with bindings := assignment.bindings.insert binding provider } := by
  have hgrows := @grows_insert _ _ provider hnew
  refine ⟨h.constructors, ?_, h.factories, h.contracts, ?_, h.getters⟩
  · exact forall_find?_insert h.bindings hmedium
  · intro name providers hproviders
    obtain ⟨module, hmodule, hname, hserves⟩ := h.modules name providers hproviders
    exact ⟨module, hmodule, hname, hserves.imp fun medium provider => Serves.grow hgrows⟩

end Assignment

namespace Assigning

open Assignment

variable {graph : ObjectGraph} {before after : Assignment}

/-! ## Single sources -/

/-- What a step that assigns the provider of one source achieves. -/
structure Assigned (graph : ObjectGraph) (medium : Medium) (before : Assignment)
    (provider : Provider) (after : Assignment) : Prop where
  sound : after.Sound graph
  grows : Grows before after
  serves : after.Serves medium provider

theorem assigned_newProvider (hsound : before.Sound graph) {owner : ClassName} {kind : String}
    {medium : Medium} (hmedium : ∀ binding, medium ≠ .binding binding) {provider : Provider}
    (h : Ends (newProvider owner kind medium) before provider after) :
    Assigned graph medium before provider after := by
  obtain ⟨rfl, names, rfl, -⟩ := newProvider_spec h
  exact ⟨hsound.withNames names, .refl _, rfl, fun binding heq => absurd heq (hmedium binding)⟩

theorem assigned_ofPoint (hgraph : graph.WellFormed) {module : ClassName} {point : ProvisionPoint}
    (hpoint : graph.HasPoint point) (hsound : before.Sound graph) {provider : Provider}
    (h : Ends (ofPoint module point) before provider after) :
    Assigned graph (.provisionPoint point) before provider after := by
  unfold ofPoint at h
  split at h
  · next injectees horigin =>
      simp only [ends_bind, ends_get] at h
      obtain ⟨_, _, ⟨rfl, rfl⟩, h⟩ := h
      split at h
      · next held hheld =>
          obtain ⟨rfl, rfl⟩ := ends_pure.1 h
          obtain ⟨remembered, ⟨other, hother, hmem⟩, hconstructor, howner, hmedium⟩ :=
            hsound.constructors _ _ hheld
          obtain ⟨mine, hmine, hpoint⟩ := hpoint
          -- The provider was made for the constructor of this class as another module hosts it.
          have hsame := hgraph.constructor_unique other hother mine hmine remembered hmem point
            hpoint hconstructor ⟨injectees, horigin⟩ howner
          exact ⟨hsound, .refl _, hsame ▸ hmedium, by simp⟩
      · simp only [ends_bind, ends_modify, ends_pure] at h
        obtain ⟨made, between, hmade, -, _, rfl, rfl, rfl⟩ := h
        have hnew := assigned_newProvider hsound (by simp) hmade
        have hremembered : graph.HasPoint point ∧ point.IsConstructor ∧ point.owner = point.owner ∧
            provider.medium = .provisionPoint point :=
          ⟨hpoint, ⟨injectees, horigin⟩, rfl, hnew.serves.1⟩
        refine ⟨{ hnew.sound with constructors := ?_ }, hnew.grows, hnew.serves⟩
        exact forall_find?_insert hnew.sound.constructors ⟨point, hremembered⟩
  · exact assigned_newProvider hsound (by simp) h
  · exact assigned_newProvider hsound (by simp) h

theorem assigned_ofBinding {binding : Binding} (hsound : before.Sound graph) {provider : Provider}
    (h : Ends (ofBinding binding) before provider after) :
    Assigned graph (.binding binding) before provider after := by
  simp only [ofBinding, ends_bind, ends_get] at h
  obtain ⟨_, _, ⟨rfl, rfl⟩, h⟩ := h
  split at h
  · next held hheld =>
      obtain ⟨rfl, rfl⟩ := ends_pure.1 h
      refine ⟨hsound, .refl _, hsound.bindings _ _ hheld, ?_⟩
      rintro _ ⟨⟩
      exact hheld
  · next hnone =>
      simp only [ends_bind, ends_except, ends_modify, ends_pure] at h
      obtain ⟨owner, _, ⟨-, rfl⟩, made, between, hmade, -, _, rfl, rfl, rfl⟩ := h
      obtain ⟨hmedium, names, rfl, -⟩ := newProvider_spec hmade
      refine ⟨(hsound.withNames names).insertBinding hnone hmedium, grows_insert hnone, hmedium, ?_⟩
      rintro _ ⟨⟩
      rw [Table.find?_insert, if_pos rfl]

theorem assigned_ofFactory (hgraph : graph.WellFormed) {id : Id .factory} {factory : Factory}
    (hfactory : graph.factories.get? id = some factory) (hsound : before.Sound graph)
    {provider : Provider} (h : Ends (ofFactory id factory) before provider after) :
    Assigned graph (.factory id) before provider after := by
  simp only [ofFactory, ends_bind, ends_get] at h
  obtain ⟨_, _, ⟨rfl, rfl⟩, h⟩ := h
  split at h
  · next held hheld =>
      obtain ⟨rfl, rfl⟩ := ends_pure.1 h
      obtain ⟨other, remembered, hremembered, hname, hmedium⟩ := hsound.factories _ _ hheld
      have hsame := hgraph.factories_named.id_unique hremembered hfactory hname
      exact ⟨hsound, .refl _, hsame ▸ hmedium, by simp⟩
  · simp only [ends_bind, ends_modify, ends_pure] at h
    obtain ⟨made, between, hmade, -, _, rfl, rfl, rfl⟩ := h
    have hnew := assigned_newProvider hsound (by simp) hmade
    refine ⟨{ hnew.sound with factories := ?_ }, hnew.grows, hnew.serves⟩
    exact forall_find?_insert hnew.sound.factories ⟨id, factory, hfactory, rfl, hnew.serves.1⟩

theorem assigned_ofContract (hgraph : graph.WellFormed) {id : Id .contract} {contract : Contract}
    (hcontract : graph.contracts.get? id = some contract) (hsound : before.Sound graph)
    {provider : Provider} (h : Ends (ofContract id contract) before provider after) :
    Assigned graph (.contract id) before provider after := by
  simp only [ofContract, ends_bind, ends_get] at h
  obtain ⟨_, _, ⟨rfl, rfl⟩, h⟩ := h
  split at h
  · next held hheld =>
      obtain ⟨rfl, rfl⟩ := ends_pure.1 h
      obtain ⟨other, remembered, hremembered, hname, hmedium⟩ := hsound.contracts _ _ hheld
      have hsame := hgraph.contracts_named.id_unique hremembered hcontract hname
      exact ⟨hsound, .refl _, hsame ▸ hmedium, by simp⟩
  · simp only [ends_bind, ends_modify, ends_pure] at h
    obtain ⟨made, between, hmade, -, _, rfl, rfl, rfl⟩ := h
    have hnew := assigned_newProvider hsound (by simp) hmade
    refine ⟨{ hnew.sound with contracts := ?_ }, hnew.grows, hnew.serves⟩
    exact forall_find?_insert hnew.sound.contracts ⟨id, contract, hcontract, rfl, hnew.serves.1⟩

/-! ## Modules and imported contracts -/

theorem assigned_mapM {α : Type} {act : α → Assigning Provider} {medium : α → Medium} {xs : List α}
    (hact : ∀ x ∈ xs, ∀ before provider after, before.Sound graph →
      Ends (act x) before provider after → Assigned graph (medium x) before provider after)
    (hsound : before.Sound graph) {providers : List Provider}
    (h : Ends (xs.mapM act) before providers after) :
    after.Sound graph ∧ Grows before after ∧
      List.Forall₂ after.Serves (xs.map medium) providers := by
  rw [List.forall₂_map_left_iff]
  refine ends_mapM (fun assignment x => assignment.Serves (medium x)) Grows.refl
    (fun _ _ _ => .trans) ?_ ?_ hsound h
  · exact fun _ _ _ _ hgrows hserves => hserves.grow hgrows
  · intro x hx before provider after hsound h
    obtain ⟨hafter, hgrows, hserves⟩ := hact x hx before provider after hsound h
    exact ⟨hafter, hgrows, hserves⟩

theorem assigned_points (hgraph : graph.WellFormed) {module : Module}
    (hmodule : module ∈ graph.modules.items) (hsound : before.Sound graph)
    {providers : List Provider}
    (h : Ends (module.provisionPoints.mapM (ofPoint module.name)) before providers after) :
    after.Sound graph ∧ Grows before after ∧
      List.Forall₂ after.Serves (module.provisionPoints.map .provisionPoint) providers := by
  refine assigned_mapM ?_ hsound h
  intro point hpoint before provider after hsound h
  exact assigned_ofPoint hgraph ⟨module, hmodule, hpoint⟩ hsound h

theorem assigned_bindings {module : Module} (hsound : before.Sound graph)
    {providers : List Provider} (h : Ends (module.bindings.mapM ofBinding) before providers after) :
    after.Sound graph ∧ Grows before after ∧
      List.Forall₂ after.Serves (module.bindings.map .binding) providers := by
  refine assigned_mapM ?_ hsound h
  intro binding _ before provider after hsound h
  exact assigned_ofBinding hsound h

theorem assigned_factories (hgraph : graph.WellFormed) {module : Module}
    (hsound : before.Sound graph) {providers : List Provider}
    (h : Ends ((module.knownFactories graph).mapM fun (id, factory) => ofFactory id factory)
      before providers after) :
    after.Sound graph ∧ Grows before after ∧
      List.Forall₂ after.Serves ((module.knownFactories graph).map fun entry => .factory entry.1)
        providers := by
  refine assigned_mapM ?_ hsound h
  intro entry hentry before provider after hsound h
  exact assigned_ofFactory hgraph (Module.get?_of_mem_knownFactories hentry) hsound h

theorem assigned_contracts (hgraph : graph.WellFormed) {module : Module}
    (hsound : before.Sound graph) {providers : List Provider}
    (h : Ends ((module.knownContracts graph).mapM fun (id, contract) => ofContract id contract)
      before providers after) :
    after.Sound graph ∧ Grows before after ∧
      List.Forall₂ after.Serves ((module.knownContracts graph).map fun entry => .contract entry.1)
        providers := by
  refine assigned_mapM ?_ hsound h
  intro entry hentry before provider after hsound h
  exact assigned_ofContract hgraph (Module.get?_of_mem_knownContracts hentry) hsound h

theorem ofModule_spec (hgraph : graph.WellFormed) {module : Module}
    (hmodule : module ∈ graph.modules.items) (hsound : before.Sound graph)
    {providers : List Provider} (h : Ends (ofModule graph module) before providers after) :
    after.Sound graph ∧ Grows before after ∧
      List.Forall₂ after.Serves (module.media graph) providers := by
  simp only [ofModule, ends_bind, ends_get] at h
  obtain ⟨_, _, ⟨rfl, rfl⟩, h⟩ := h
  split at h
  · next held hheld =>
      obtain ⟨rfl, rfl⟩ := ends_pure.1 h
      obtain ⟨other, hother, hname, hserves⟩ := hsound.modules _ _ hheld
      have hsame := hgraph.modules_named.item_unique hother hmodule hname
      exact ⟨hsound, .refl _, hsame ▸ hserves⟩
  · simp only [ends_bind, ends_logged, ends_modify, ends_pure] at h
    obtain ⟨points, a, hpoints, bindings, b, hbindings, factories, c, hfactories, contracts, d,
      hcontracts, -, last, ⟨-, rfl⟩, -, _, rfl, rfl, rfl⟩ := h
    obtain ⟨ha, hgrowsA, hpoints⟩ := assigned_points hgraph hmodule hsound hpoints
    obtain ⟨hb, hgrowsB, hbindings⟩ := assigned_bindings ha hbindings
    obtain ⟨hc, hgrowsC, hfactories⟩ := assigned_factories hgraph hb hfactories
    obtain ⟨hlast, hgrowsD, hcontracts⟩ := assigned_contracts hgraph hc hcontracts
    -- Bindings that were assigned stay assigned while the later sources are served.
    have hgrow {s : Assignment} (hgrows : Grows s last) {media : List Medium}
        {providers : List Provider} (h : List.Forall₂ s.Serves media providers) :
        List.Forall₂ last.Serves media providers :=
      h.imp fun _ _ => Serves.grow hgrows
    have hgrowsBD := hgrowsC.trans hgrowsD
    have hgrowsAD := hgrowsB.trans hgrowsBD
    have hserves : List.Forall₂ last.Serves (module.media graph)
        (points ++ bindings ++ factories ++ contracts) := by
      refine List.rel_append (List.rel_append (List.rel_append ?_ ?_) ?_) hcontracts
      · exact hgrow hgrowsAD hpoints
      · exact hgrow hgrowsBD hbindings
      · exact hgrow hgrowsD hfactories
    refine ⟨{ hlast with modules := ?_ }, hgrowsA.trans hgrowsAD, hserves⟩
    exact forall_find?_insert hlast.modules ⟨module, hmodule, rfl, hserves⟩

theorem newGetters_spec {id : Id .contract} {lazy : Bool} {owner : ClassName}
    {getters : List Getter} (hsound : before.Sound graph) {providers : List Provider}
    (h : Ends (getters.mapM fun getter =>
      newProvider owner "MethodProvider" (.getter id lazy getter)) before providers after) :
    after.Sound graph ∧ Grows before after ∧
      providers.map Provider.medium = getters.map (.getter id lazy) := by
  have hassigned : after.Sound graph ∧ Grows before after ∧
      List.Forall₂ after.Serves (getters.map (.getter id lazy)) providers := by
    refine assigned_mapM ?_ hsound h
    intro getter _ before provider after hsound h
    exact assigned_newProvider hsound (by simp) h
  obtain ⟨hafter, hgrows, hserves⟩ := hassigned
  exact ⟨hafter, hgrows, map_medium_of_serves hserves⟩

theorem ofImport_spec (hgraph : graph.WellFormed) {id : Id .contract} {contract : Contract}
    (hcontract : graph.contracts.get? id = some contract) {lazy : Bool}
    (hsound : before.Sound graph) {providers : List Provider}
    (h : Ends (ofImport id contract lazy) before providers after) :
    after.Sound graph ∧ Grows before after ∧
      providers.map Provider.medium = contract.getters.map (.getter id lazy) := by
  simp only [ofImport, ends_bind, ends_get] at h
  obtain ⟨_, _, ⟨rfl, rfl⟩, h⟩ := h
  split at h
  · next held hheld =>
      obtain ⟨rfl, rfl⟩ := ends_pure.1 h
      obtain ⟨other, remembered, hremembered, hname, hmedia⟩ := hsound.getters _ _ hheld
      obtain rfl := hgraph.contracts_named.id_unique hremembered hcontract hname
      cases hcontract.symm.trans hremembered
      exact ⟨hsound, .refl _, hmedia⟩
  · simp only [ends_bind, ends_modify, ends_pure] at h
    obtain ⟨made, last, hmade, -, _, rfl, rfl, rfl⟩ := h
    obtain ⟨hlast, hgrows, hmedia⟩ := newGetters_spec hsound hmade
    refine ⟨{ hlast with getters := ?_ }, hgrows, hmedia⟩
    exact forall_find?_insert hlast.getters ⟨id, contract, hcontract, rfl, hmedia⟩

end Assigning

end InjectionCompiler
