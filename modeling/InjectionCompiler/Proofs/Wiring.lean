import InjectionCompiler.Wiring
import InjectionCompiler.Proofs.Search
import Mathlib.Data.List.Nodup

/-!
# The parts of a wiring

The wiring of a container is put together from the parts of its effective modules: provision
points, bindings, hosted factories, hosted contracts and imported contracts.  Bindings and imported
contracts are taken once for the whole container, all other parts once for each module.
-/

namespace InjectionCompiler

/-- `module` stands under `id` among the modules that `root` reaches through imports. -/
def ObjectGraph.Effective (graph : ObjectGraph) (root id : Id .module) (module : Module) : Prop :=
  graph.importSpace.Leads root id ∧ graph.modules.get? id = some module

namespace Wiring

/-! ## What the operations on wirings add -/

theorem ext {a b : Wiring} (provided : a.provided = b.provided) (required : a.required = b.required)
    (edges : a.edges = b.edges) : a = b := by
  cases a
  cases b
  simp_all

@[simp] theorem provided_empty : (∅ : Wiring).provided = [] := rfl
@[simp] theorem required_empty : (∅ : Wiring).required = [] := rfl
@[simp] theorem edges_empty : (∅ : Wiring).edges = [] := rfl

@[simp] theorem provided_append (a b : Wiring) : (a ++ b).provided = a.provided ++ b.provided := rfl
@[simp] theorem required_append (a b : Wiring) : (a ++ b).required = a.required ++ b.required := rfl
@[simp] theorem edges_append (a b : Wiring) : (a ++ b).edges = a.edges ++ b.edges := rfl

@[simp] theorem provided_join (ws : List Wiring) : (join ws).provided = ws.flatMap provided := rfl
@[simp] theorem required_join (ws : List Wiring) : (join ws).required = ws.flatMap required := rfl
@[simp] theorem edges_join (ws : List Wiring) : (join ws).edges = ws.flatMap edges := rfl

@[simp] theorem provided_provide (key : Key) (source : Source) :
    (provide key source).provided = [(key.boxed, source)] := rfl
@[simp] theorem required_provide (key : Key) (source : Source) :
    (provide key source).required = [] := rfl
@[simp] theorem edges_provide (key : Key) (source : Source) : (provide key source).edges = [] := rfl

@[simp] theorem provided_require (dependency : Dependency) (requirer : Requirer) :
    (require dependency requirer).provided = [] := rfl
@[simp] theorem required_require (dependency : Dependency) (requirer : Requirer) :
    (require dependency requirer).required = [(dependency.key.boxed, requirer)] := rfl
@[simp] theorem edges_require (dependency : Dependency) (requirer : Requirer) :
    (require dependency requirer).edges = [] := rfl

@[simp] theorem provided_order (dependent : Key) (dependency : Dependency) :
    (order dependent dependency).provided = [] := by
  unfold order
  split <;> rfl

@[simp] theorem required_order (dependent : Key) (dependency : Dependency) :
    (order dependent dependency).required = [] := by
  unfold order
  split <;> rfl

theorem mem_edges_order {dependent : Key} {dependency : Dependency} {edge : Key × Key} :
    edge ∈ (order dependent dependency).edges ↔
      dependency.delivery = .direct ∧ edge = (dependent.boxed, dependency.key.boxed) := by
  unfold order
  cases hdelivery : dependency.delivery <;> simp [Delivery.isDeferred]

theorem join_append (as bs : List Wiring) : join (as ++ bs) = join as ++ join bs := by
  apply ext <;> simp

/-! ## Parts -/

/-- One part of a wiring, with the place it comes from. -/
inductive Part where
  | provisionPoint (module : Id .module) (index : Nat) (name : ClassName) (point : ProvisionPoint)
  | declaredBinding (name : ClassName) (binding : Binding)
  | hostedFactory (module : Id .module) (index : Nat) (name : ClassName) (factory : Factory)
  | hostedContract (module : Id .module) (index : Nat) (name : ClassName) (contract : Contract)
  | importedContract (id : Id .contract) (contract : Contract) (site : ImportSite)

def Part.wiring : Part → Wiring
  | .provisionPoint _ _ name point => ofPoint name point
  | .declaredBinding name binding => ofBinding name binding
  | .hostedFactory _ _ name factory => ofFactory name factory
  | .hostedContract _ _ name contract => ofContract name contract
  | .importedContract _ contract site => ofImport contract site

/-- The parts that the module under `id` contributes. -/
inductive PartOf (graph : ObjectGraph) (id : Id .module) (module : Module) : Part → Prop where
  | provisionPoint {index : Nat} {point : ProvisionPoint}
      (hpoint : module.provisionPoints[index]? = some point) :
      PartOf graph id module (.provisionPoint id index module.name point)
  | declaredBinding {binding : Binding} (hbinding : binding ∈ module.bindings) :
      PartOf graph id module (.declaredBinding module.name binding)
  | hostedFactory {index : Nat} {factory : Factory}
      (hfactory : (graph.hostedFactories module)[index]? = some factory) :
      PartOf graph id module (.hostedFactory id index module.name factory)
  | hostedContract {index : Nat} {contract : Contract}
      (hcontract : (graph.hostedContracts module)[index]? = some contract) :
      PartOf graph id module (.hostedContract id index module.name contract)
  | importedContract {imported : Id .contract} {contract : Contract} {site : ImportSite}
      {lazy : Bool} (himport : .contract imported site lazy ∈ module.imports)
      (hcontract : graph.contracts.get? imported = some contract) :
      PartOf graph id module (.importedContract imported contract site)

/-- What tells parts apart: the place within a module, or the binding or contract itself. -/
inductive Tag where
  | provisionPoint (module : Id .module) (index : Nat)
  | declaredBinding (binding : Binding)
  | hostedFactory (module : Id .module) (index : Nat)
  | hostedContract (module : Id .module) (index : Nat)
  | importedContract (id : Id .contract)

def Part.tag : Part → Tag
  | .provisionPoint module index _ _ => .provisionPoint module index
  | .declaredBinding _ binding => .declaredBinding binding
  | .hostedFactory module index _ _ => .hostedFactory module index
  | .hostedContract module index _ _ => .hostedContract module index
  | .importedContract id _ _ => .importedContract id

def Tag.InModule (id : Id .module) : Tag → Prop
  | .provisionPoint module _ | .hostedFactory module _ | .hostedContract module _ => module = id
  | .declaredBinding _ | .importedContract _ => False

def Tag.Seen (bindings : List Binding) (contracts : List (Id .contract)) : Tag → Prop
  | .declaredBinding binding => binding ∈ bindings
  | .importedContract id => id ∈ contracts
  | .provisionPoint _ _ | .hostedFactory _ _ | .hostedContract _ _ => False

theorem Tag.Seen.append {bindings : List Binding} {contracts : List (Id .contract)} {tag : Tag}
    (moreBindings : List Binding) (moreContracts : List (Id .contract))
    (h : tag.Seen bindings contracts) :
    tag.Seen (bindings ++ moreBindings) (contracts ++ moreContracts) := by
  cases tag <;> simp_all [Tag.Seen]

/-! ## The parts of one module -/

def partsOfModule (graph : ObjectGraph) (id : Id .module) (module : Module)
    (bindings : List Binding) (imports : List (Id .contract × ImportSite)) : List Part :=
  (module.provisionPoints.zipIdx.map fun (point, index) =>
      .provisionPoint id index module.name point) ++
    bindings.map (.declaredBinding module.name) ++
    ((graph.hostedFactories module).zipIdx.map fun (factory, index) =>
      .hostedFactory id index module.name factory) ++
    ((graph.hostedContracts module).zipIdx.map fun (contract, index) =>
      .hostedContract id index module.name contract) ++
    imports.filterMap fun (id, site) =>
      (graph.contracts.get? id).map fun contract => .importedContract id contract site

theorem map_zipIdx {α β : Type} (f : α → β) (g : α × Nat → β) (h : ∀ entry, g entry = f entry.1)
    (xs : List α) : xs.zipIdx.map g = xs.map f := by
  rw [show g = f ∘ Prod.fst from funext h, ← List.map_map, List.zipIdx_map_fst]

private theorem map_wiring_zipIdx {α : Type} (part : α × Nat → Part) (wiring : α → Wiring)
    (h : ∀ entry, (part entry).wiring = wiring entry.1) (xs : List α) :
    (xs.zipIdx.map part).map Part.wiring = xs.map wiring := by
  rw [List.map_map]
  exact map_zipIdx wiring _ h xs

private theorem map_wiring_imports (graph : ObjectGraph)
    (imports : List (Id .contract × ImportSite)) :
    (imports.filterMap fun (id, site) => (graph.contracts.get? id).map fun contract =>
        Part.importedContract id contract site).map Part.wiring =
      imports.filterMap fun (id, site) => (graph.contracts.get? id).map fun contract =>
        ofImport contract site := by
  rw [List.map_filterMap]
  apply List.filterMap_congr
  rintro ⟨id, site⟩ -
  simp only [Option.map_map]
  rfl

theorem ofModule_eq_join (graph : ObjectGraph) (id : Id .module) (module : Module)
    (bindings : List Binding) (imports : List (Id .contract × ImportSite)) :
    ofModule graph module bindings imports =
      join ((partsOfModule graph id module bindings imports).map Part.wiring) := by
  unfold ofModule partsOfModule
  simp only [List.map_append, join_append]
  rw [map_wiring_zipIdx _ (ofPoint module.name) (fun _ => rfl),
    map_wiring_zipIdx _ (ofFactory module.name) (fun _ => rfl),
    map_wiring_zipIdx _ (ofContract module.name) (fun _ => rfl), map_wiring_imports, List.map_map]
  rfl

theorem mem_contractImports {module : Module} {imported : Id .contract} {site : ImportSite} :
    (imported, site) ∈ contractImports module ↔
      ∃ lazy, Import.contract imported site lazy ∈ module.imports := by
  simp only [contractImports, List.mem_filterMap, Option.map_eq_some_iff, Prod.mk.injEq]
  constructor
  · rintro ⟨declared, hmem, ⟨_, _, lazy⟩, hcontract, rfl, rfl⟩
    cases declared with
    | module => simp [Import.contract?] at hcontract
    | contract target site lazy =>
        simp only [Import.contract?, Option.some.injEq, Prod.mk.injEq] at hcontract
        obtain ⟨rfl, rfl, rfl⟩ := hcontract
        exact ⟨lazy, hmem⟩
  · rintro ⟨lazy, hmem⟩
    exact ⟨_, hmem, _, rfl, rfl, rfl⟩

def freshParts (graph : ObjectGraph) (bindings : List Binding) (contracts : List (Id .contract))
    (target : Id .module) (module : Module) : List Part :=
  partsOfModule graph target module (firstsFrom id bindings module.bindings)
    (firstsFrom Prod.fst contracts (contractImports module))

section Fresh

variable {graph : ObjectGraph} {bindings : List Binding} {contracts : List (Id .contract)}
  {target : Id .module} {module : Module} {part : Part}

private theorem mem_partsOfModule {fresh : List Binding}
    {imports : List (Id .contract × ImportSite)} :
    part ∈ partsOfModule graph target module fresh imports ↔
      (∃ point index, module.provisionPoints[index]? = some point ∧
        part = .provisionPoint target index module.name point) ∨
      (∃ binding ∈ fresh, part = .declaredBinding module.name binding) ∨
      (∃ factory index, (graph.hostedFactories module)[index]? = some factory ∧
        part = .hostedFactory target index module.name factory) ∨
      (∃ contract index, (graph.hostedContracts module)[index]? = some contract ∧
        part = .hostedContract target index module.name contract) ∨
      ∃ imported site contract, (imported, site) ∈ imports ∧
        graph.contracts.get? imported = some contract ∧
        part = .importedContract imported contract site := by
  simp only [partsOfModule, List.mem_append, List.mem_map, List.mem_filterMap, Prod.exists,
    List.mem_zipIdx_iff_getElem?, Option.map_eq_some_iff, eq_comm (b := part), or_assoc]
  grind

theorem partOf_of_mem_freshParts (h : part ∈ freshParts graph bindings contracts target module) :
    PartOf graph target module part ∧ ¬ part.tag.Seen bindings contracts := by
  rcases mem_partsOfModule.1 h with ⟨point, index, hpoint, rfl⟩ | ⟨binding, hbinding, rfl⟩ |
    ⟨factory, index, hfactory, rfl⟩ | ⟨contract, index, hcontract, rfl⟩ |
    ⟨imported, site, contract, himport, hcontract, rfl⟩
  · exact ⟨.provisionPoint hpoint, fun h => h⟩
  · obtain ⟨hmem, hfresh⟩ := mem_of_mem_firstsFrom hbinding
    exact ⟨.declaredBinding hmem, hfresh⟩
  · exact ⟨.hostedFactory hfactory, fun h => h⟩
  · exact ⟨.hostedContract hcontract, fun h => h⟩
  · obtain ⟨hmem, hfresh⟩ := mem_of_mem_firstsFrom himport
    obtain ⟨lazy, hmem⟩ := mem_contractImports.1 hmem
    exact ⟨.importedContract hmem hcontract, hfresh⟩

theorem exists_mem_freshParts (hpart : PartOf graph target module part)
    (hfresh : ¬ part.tag.Seen bindings contracts) :
    ∃ other ∈ freshParts graph bindings contracts target module, other.tag = part.tag := by
  cases hpart with
  | provisionPoint hpoint =>
      exact ⟨_, mem_partsOfModule.2 (.inl ⟨_, _, hpoint, rfl⟩), rfl⟩
  | @declaredBinding binding hbinding =>
      have hmem := (@key_mem_map_firstsFrom _ _ _ id bindings module.bindings binding).2
        ⟨by simpa using hbinding, hfresh⟩
      exact ⟨_, mem_partsOfModule.2 (.inr (.inl ⟨binding, by simpa using hmem, rfl⟩)), rfl⟩
  | hostedFactory hfactory =>
      exact ⟨_, mem_partsOfModule.2 (.inr (.inr (.inl ⟨_, _, hfactory, rfl⟩))), rfl⟩
  | hostedContract hcontract =>
      exact ⟨_, mem_partsOfModule.2 (.inr (.inr (.inr (.inl ⟨_, _, hcontract, rfl⟩)))), rfl⟩
  | @importedContract imported contract site lazy himport hcontract =>
      have hdeclared : imported ∈ (contractImports module).map Prod.fst :=
        List.mem_map.2 ⟨_, mem_contractImports.2 ⟨lazy, himport⟩, rfl⟩
      obtain ⟨⟨_, first⟩, hmem, rfl⟩ :=
        List.mem_map.1 (key_mem_map_firstsFrom.2 ⟨hdeclared, hfresh⟩)
      exact ⟨_, mem_partsOfModule.2
        (.inr (.inr (.inr (.inr ⟨_, first, contract, hmem, hcontract, rfl⟩)))), rfl⟩

/-- Nothing that a module adds can come again from a module under another id. -/
theorem settled_of_mem_freshParts
    (h : part ∈ freshParts graph bindings contracts target module) :
    part.tag.InModule target ∨
      part.tag.Seen (bindings ++ firstsFrom id bindings module.bindings)
        (contracts ++ (firstsFrom Prod.fst contracts (contractImports module)).map Prod.fst) := by
  rcases mem_partsOfModule.1 h with
    ⟨point, index, -, rfl⟩ | ⟨binding, hbinding, rfl⟩ | ⟨factory, index, -, rfl⟩ |
    ⟨contract, index, -, rfl⟩ | ⟨imported, site, contract, himport, -, rfl⟩
  · exact .inl rfl
  · exact .inr (List.mem_append_right _ hbinding)
  · exact .inl rfl
  · exact .inl rfl
  · exact .inr (List.mem_append_right _ (List.mem_map.2 ⟨_, himport, rfl⟩))

private theorem nodup_tags_zipIdx {α : Type} (part : α × Nat → Part) (tag : Nat → Tag)
    (h : ∀ entry, (part entry).tag = tag entry.2) (hinj : Function.Injective tag) (xs : List α) :
    ((xs.zipIdx.map part).map Part.tag).Nodup := by
  rw [List.map_map, show Part.tag ∘ part = tag ∘ Prod.snd from funext h, ← List.map_map]
  apply List.Nodup.map hinj
  rw [List.zipIdx_map_snd]
  exact List.nodup_range'

private theorem nodup_tags_imports {imports : List (Id .contract × ImportSite)}
    (h : (imports.map Prod.fst).Nodup) :
    ((imports.filterMap fun (id, site) => (graph.contracts.get? id).map fun contract =>
      Part.importedContract id contract site).map Part.tag).Nodup := by
  rw [List.Nodup, List.pairwise_map] at h ⊢
  rw [List.pairwise_filterMap]
  refine h.imp fun hne first hfirst second hsecond => ?_
  obtain ⟨_, -, rfl⟩ := Option.map_eq_some_iff.1 hfirst
  obtain ⟨_, -, rfl⟩ := Option.map_eq_some_iff.1 hsecond
  simpa [Part.tag] using hne

theorem nodup_freshParts :
    ((freshParts graph bindings contracts target module).map Part.tag).Nodup := by
  have hpoints := nodup_tags_zipIdx
    (fun entry => .provisionPoint target entry.2 module.name entry.1) (.provisionPoint target)
    (fun _ => rfl) (fun _ _ h => by simpa using h) module.provisionPoints
  have hbindings : (((firstsFrom id bindings module.bindings).map
      (Part.declaredBinding module.name)).map Part.tag).Nodup := by
    rw [List.map_map]
    refine List.Nodup.map (fun _ _ h => by simpa [Part.tag] using h) ?_
    simpa using nodup_map_firstsFrom id bindings module.bindings
  have hfactories := nodup_tags_zipIdx
    (fun entry => .hostedFactory target entry.2 module.name entry.1) (.hostedFactory target)
    (fun _ => rfl) (fun _ _ h => by simpa using h) (graph.hostedFactories module)
  have hcontracts := nodup_tags_zipIdx
    (fun entry => .hostedContract target entry.2 module.name entry.1) (.hostedContract target)
    (fun _ => rfl) (fun _ _ h => by simpa using h) (graph.hostedContracts module)
  have himports := @nodup_tags_imports graph _
    (nodup_map_firstsFrom Prod.fst contracts (contractImports module))
  unfold freshParts partsOfModule
  simp only [List.map_append, List.nodup_append]
  refine ⟨⟨⟨⟨hpoints, hbindings, ?_⟩, hfactories, ?_⟩, hcontracts, ?_⟩, himports, ?_⟩
  all_goals
    clear hpoints hbindings hfactories hcontracts himports
    simp only [List.mem_append, List.mem_map, List.mem_filterMap, Option.map_eq_some_iff]
    grind [Part.tag]

end Fresh

/-! ## The parts of several modules -/

def partsOfModules (graph : ObjectGraph) (bindings : List Binding)
    (contracts : List (Id .contract)) : List (Id .module × Module) → List Part
  | [] => []
  | (target, module) :: modules =>
      freshParts graph bindings contracts target module ++
        partsOfModules graph (bindings ++ firstsFrom id bindings module.bindings)
          (contracts ++ (firstsFrom Prod.fst contracts (contractImports module)).map Prod.fst)
          modules

theorem ofModules_eq_join (graph : ObjectGraph) (bindings : List Binding)
    (contracts : List (Id .contract)) (modules : List (Id .module × Module)) :
    ofModules graph bindings contracts (modules.map Prod.snd) =
      join ((partsOfModules graph bindings contracts modules).map Part.wiring) := by
  induction modules generalizing bindings contracts with
  | nil => rfl
  | cons entry modules ih =>
      simp only [List.map_cons, ofModules, partsOfModules, List.map_append, join_append, ih]
      rw [ofModule_eq_join graph entry.1]
      rfl

section Modules

variable {graph : ObjectGraph} {bindings : List Binding} {contracts : List (Id .contract)}
  {modules : List (Id .module × Module)} {part : Part}

theorem partOf_of_mem_partsOfModules (h : part ∈ partsOfModules graph bindings contracts modules) :
    (∃ entry ∈ modules, PartOf graph entry.1 entry.2 part) ∧
      ¬ part.tag.Seen bindings contracts := by
  induction modules generalizing bindings contracts with
  | nil => cases h
  | cons entry modules ih =>
      rcases List.mem_append.1 h with hhead | htail
      · obtain ⟨hpart, hfresh⟩ := partOf_of_mem_freshParts hhead
        exact ⟨⟨entry, List.mem_cons_self .., hpart⟩, hfresh⟩
      · obtain ⟨⟨other, hmem, hpart⟩, hfresh⟩ := ih htail
        exact ⟨⟨other, List.mem_cons_of_mem _ hmem, hpart⟩, fun hseen => hfresh (hseen.append _ _)⟩

private theorem exists_mem_freshParts_of_seen {target other : Id .module} {module from_ : Module}
    (hpart : PartOf graph other from_ part) (hfresh : ¬ part.tag.Seen bindings contracts)
    (hseen : part.tag.Seen (bindings ++ firstsFrom id bindings module.bindings)
      (contracts ++ (firstsFrom Prod.fst contracts (contractImports module)).map Prod.fst)) :
    ∃ here ∈ freshParts graph bindings contracts target module, here.tag = part.tag := by
  cases hpart with
  | provisionPoint | hostedFactory | hostedContract => cases hseen
  | @declaredBinding binding =>
      have hmem := (List.mem_append.1 hseen).resolve_left hfresh
      have hhere : PartOf graph target module (.declaredBinding module.name binding) :=
        .declaredBinding (mem_of_mem_firstsFrom hmem).1
      obtain ⟨here, hmem, htag⟩ := exists_mem_freshParts hhere hfresh
      exact ⟨here, hmem, htag⟩
  | @importedContract imported contract site lazy himport hcontract =>
      have hmem := (List.mem_append.1 hseen).resolve_left hfresh
      obtain ⟨⟨_, first⟩, hfirst, rfl⟩ := List.mem_map.1 hmem
      obtain ⟨lazy, himport⟩ := mem_contractImports.1 (mem_of_mem_firstsFrom hfirst).1
      have hhere : PartOf graph target module (.importedContract _ contract first) :=
        .importedContract himport hcontract
      obtain ⟨here, hmem, htag⟩ := exists_mem_freshParts hhere hfresh
      exact ⟨here, hmem, htag⟩

theorem exists_mem_partsOfModules {entry : Id .module × Module} (hentry : entry ∈ modules)
    (hpart : PartOf graph entry.1 entry.2 part) (hfresh : ¬ part.tag.Seen bindings contracts) :
    ∃ other ∈ partsOfModules graph bindings contracts modules, other.tag = part.tag := by
  induction modules generalizing bindings contracts with
  | nil => cases hentry
  | cons head modules ih =>
      have hhead : (∃ other ∈ freshParts graph bindings contracts head.1 head.2,
          other.tag = part.tag) →
          ∃ other ∈ partsOfModules graph bindings contracts (head :: modules),
            other.tag = part.tag :=
        fun ⟨other, hmem, htag⟩ => ⟨other, List.mem_append_left _ hmem, htag⟩
      rcases List.mem_cons.1 hentry with rfl | htail
      · exact hhead (exists_mem_freshParts hpart hfresh)
      · by_cases hseen : part.tag.Seen (bindings ++ firstsFrom id bindings head.2.bindings)
            (contracts ++ (firstsFrom Prod.fst contracts (contractImports head.2)).map Prod.fst)
        · exact hhead (exists_mem_freshParts_of_seen hpart hfresh hseen)
        · obtain ⟨other, hmem, htag⟩ := ih htail hseen
          exact ⟨other, List.mem_append_right _ hmem, htag⟩

theorem nodup_partsOfModules (h : (modules.map Prod.fst).Nodup) :
    ((partsOfModules graph bindings contracts modules).map Part.tag).Nodup := by
  induction modules generalizing bindings contracts with
  | nil => exact .nil
  | cons entry modules ih =>
      obtain ⟨hnew, hrest⟩ := List.nodup_cons.1 h
      rw [partsOfModules, List.map_append, List.nodup_append]
      refine ⟨nodup_freshParts, ih hrest, ?_⟩
      rintro tag hhead _ htail rfl
      obtain ⟨first, hfirst, rfl⟩ := List.mem_map.1 hhead
      obtain ⟨second, hsecond, htag⟩ := List.mem_map.1 htail
      obtain ⟨⟨other, hother, hpart⟩, hfresh⟩ := partOf_of_mem_partsOfModules hsecond
      rcases settled_of_mem_freshParts hfirst with hmodule | hseen
      · rw [← htag] at hmodule
        have hsame : other.1 = entry.1 := by
          cases hpart <;> first | exact hmodule | cases hmodule
        exact hnew (List.mem_map.2 ⟨other, hother, hsame⟩)
      · exact hfresh (htag ▸ hseen)

end Modules

/-! ## The parts of a container -/

def effectiveEntries (graph : ObjectGraph) (root : Id .module) : List (Id .module × Module) :=
  (graph.effectiveIds root).filterMap fun target =>
    (graph.modules.get? target).map fun module => (target, module)

theorem mem_effectiveEntries {graph : ObjectGraph} {root target : Id .module} {module : Module} :
    (target, module) ∈ effectiveEntries graph root ↔ graph.Effective root target module := by
  simp only [effectiveEntries, List.mem_filterMap, Option.map_eq_some_iff, Prod.mk.injEq,
    ObjectGraph.effectiveIds, SearchSpace.mem_reach_iff, ObjectGraph.Effective]
  constructor
  · rintro ⟨_, hleads, _, hmodule, rfl, rfl⟩
    exact ⟨hleads, hmodule⟩
  · rintro ⟨hleads, hmodule⟩
    exact ⟨_, hleads, _, hmodule, rfl, rfl⟩

theorem map_snd_effectiveEntries (graph : ObjectGraph) (root : Id .module) :
    (effectiveEntries graph root).map Prod.snd = graph.effectiveModules root := by
  unfold effectiveEntries ObjectGraph.effectiveModules
  rw [List.map_filterMap]
  apply List.filterMap_congr
  intro target _
  cases graph.modules.get? target <;> rfl

theorem nodup_effectiveEntries (graph : ObjectGraph) (root : Id .module) :
    ((effectiveEntries graph root).map Prod.fst).Nodup := by
  have hids := SearchSpace.nodup_reach graph.importSpace root
  rw [effectiveEntries, List.map_filterMap]
  refine hids.filterMap fun first second target hfirst hsecond => ?_
  cases hone : graph.modules.get? first <;> cases htwo : graph.modules.get? second <;>
    simp_all

def parts (graph : ObjectGraph) (root : Id .module) : List Part :=
  partsOfModules graph [] [] (effectiveEntries graph root)

section Container

variable {graph : ObjectGraph} {root : Id .module} {part : Part}

theorem ofRoot_eq_join (graph : ObjectGraph) (root : Id .module) :
    ofRoot graph root =
      provide (.ofClass Vocabulary.injector) .injector ++
        join ((parts graph root).map Part.wiring) := by
  rw [ofRoot, parts, ← ofModules_eq_join, map_snd_effectiveEntries]

theorem partOf_of_mem_parts (h : part ∈ parts graph root) :
    ∃ target module, graph.Effective root target module ∧ PartOf graph target module part := by
  obtain ⟨⟨entry, hentry, hpart⟩, -⟩ := partOf_of_mem_partsOfModules h
  exact ⟨entry.1, entry.2, mem_effectiveEntries.1 hentry, hpart⟩

theorem exists_mem_parts {target : Id .module} {module : Module}
    (hmodule : graph.Effective root target module) (hpart : PartOf graph target module part) :
    ∃ other ∈ parts graph root, other.tag = part.tag :=
  exists_mem_partsOfModules (mem_effectiveEntries.2 hmodule) hpart (by
    cases part.tag <;> simp [Tag.Seen])

theorem nodup_parts (graph : ObjectGraph) (root : Id .module) :
    ((parts graph root).map Part.tag).Nodup :=
  nodup_partsOfModules (nodup_effectiveEntries graph root)

end Container

end Wiring

end InjectionCompiler
