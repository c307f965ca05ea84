import InjectionCompiler.Proofs.Wiring

/-!
# Sources, requirements and order in a container

What a container provides, requires and orders is said here over the modules that its root reaches,
without any order of search, and is then shown to be what the wiring holds.
-/

namespace InjectionCompiler.Wiring

/-! ## The relations -/

/-- Where a source stands.  Equal bindings are one place, and so are all imports of a contract. -/
inductive Place where
  | injector
  | provisionPoint (module : Id .module) (index : Nat)
  | declaredBinding (binding : Binding)
  | hostedFactory (module : Id .module) (index : Nat)
  | hostedContract (module : Id .module) (index : Nat)
  | importedContract (contract : Id .contract)
  | importedGetter (contract : Id .contract) (index : Nat)

/-- A place of the container below `root` provides a boxed key, and is shown as a source. -/
inductive Provides (graph : ObjectGraph) (root : Id .module) : Place → Key → Source → Prop where
  | injector : Provides graph root .injector (Key.ofClass Vocabulary.injector).boxed .injector
  | provisionPoint {target : Id .module} {module : Module} {index : Nat} {point : ProvisionPoint}
      (hmodule : graph.Effective root target module)
      (hpoint : module.provisionPoints[index]? = some point) :
      Provides graph root (.provisionPoint target index) point.key.boxed
        (.provisionPoint point module.name)
  | declaredBinding {target : Id .module} {module : Module} {binding : Binding}
      (hmodule : graph.Effective root target module) (hbinding : binding ∈ module.bindings) :
      Provides graph root (.declaredBinding binding) binding.ancestor.boxed
        (.declaredBinding binding module.name)
  | hostedFactory {target : Id .module} {module : Module} {index : Nat} {factory : Factory}
      (hmodule : graph.Effective root target module)
      (hfactory : (graph.hostedFactories module)[index]? = some factory) :
      Provides graph root (.hostedFactory target index) factory.key.boxed
        (.hostedFactory factory.name module.name)
  | hostedContract {target : Id .module} {module : Module} {index : Nat} {contract : Contract}
      (hmodule : graph.Effective root target module)
      (hcontract : (graph.hostedContracts module)[index]? = some contract) :
      Provides graph root (.hostedContract target index) contract.key.boxed
        (.hostedContract contract.name module.name)
  | importedContract {target : Id .module} {module : Module} {imported : Id .contract}
      {contract : Contract} {site : ImportSite} {lazy : Bool}
      (hmodule : graph.Effective root target module)
      (himport : .contract imported site lazy ∈ module.imports)
      (hcontract : graph.contracts.get? imported = some contract) :
      Provides graph root (.importedContract imported) contract.key.boxed
        (.importedContract contract.name site)
  | importedGetter {target : Id .module} {module : Module} {imported : Id .contract}
      {contract : Contract} {site : ImportSite} {lazy : Bool} {index : Nat} {getter : Getter}
      (hmodule : graph.Effective root target module)
      (himport : .contract imported site lazy ∈ module.imports)
      (hcontract : graph.contracts.get? imported = some contract)
      (hgetter : contract.getters[index]? = some getter) :
      Provides graph root (.importedGetter imported index) getter.injectee.key.boxed
        (.importedGetter getter site)

def ProvidedAt (graph : ObjectGraph) (root : Id .module) (place : Place) (key : Key) : Prop :=
  ∃ source, Provides graph root place key source

/-- The container below `root` needs a boxed key for something that it provides. -/
inductive Requires (graph : ObjectGraph) (root : Id .module) : Key → Requirer → Prop where
  | provisionPoint {target : Id .module} {module : Module} {point : ProvisionPoint}
      {injectee : Dependency} (hmodule : graph.Effective root target module)
      (hpoint : point ∈ module.provisionPoints) (hinjectee : injectee ∈ point.injectees) :
      Requires graph root injectee.key.boxed (.provisionPoint point)
  | declaredBinding {target : Id .module} {module : Module} {binding : Binding}
      (hmodule : graph.Effective root target module) (hbinding : binding ∈ module.bindings) :
      Requires graph root binding.implementation.boxed (.declaredBinding binding)
  | factoryMethod {target : Id .module} {module : Module} {factory : Factory}
      {method : FactoryMethod} {dependency : Dependency}
      (hmodule : graph.Effective root target module)
      (hfactory : factory ∈ graph.hostedFactories module) (hmethod : method ∈ factory.methods)
      (hargument : .injected dependency ∈ method.arguments) :
      Requires graph root dependency.key.boxed (.factoryMethod factory.name method.method)
  | getter {target : Id .module} {module : Module} {contract : Contract} {getter : Getter}
      (hmodule : graph.Effective root target module)
      (hcontract : contract ∈ graph.hostedContracts module) (hgetter : getter ∈ contract.getters) :
      Requires graph root getter.injectee.key.boxed (.getter getter.owner getter.method)

/-- The first boxed key cannot be made before the second. -/
inductive EagerEdge (graph : ObjectGraph) (root : Id .module) : Key → Key → Prop where
  | provisionPoint {target : Id .module} {module : Module} {point : ProvisionPoint}
      {injectee : Dependency} (hmodule : graph.Effective root target module)
      (hpoint : point ∈ module.provisionPoints) (hinjectee : injectee ∈ point.injectees)
      (hdirect : injectee.delivery = .direct) :
      EagerEdge graph root point.key.boxed injectee.key.boxed
  | declaredBinding {target : Id .module} {module : Module} {binding : Binding}
      (hmodule : graph.Effective root target module) (hbinding : binding ∈ module.bindings) :
      EagerEdge graph root binding.ancestor.boxed binding.implementation.boxed
  | getter {target : Id .module} {module : Module} {contract : Contract} {getter : Getter}
      (hmodule : graph.Effective root target module)
      (hcontract : contract ∈ graph.hostedContracts module) (hgetter : getter ∈ contract.getters)
      (hdirect : getter.injectee.delivery = .direct) :
      EagerEdge graph root contract.key.boxed getter.injectee.key.boxed

/-! ## The sources of a part -/

def Part.supplies : Part → List (Place × Key × Source)
  | .provisionPoint module index name point =>
      [(.provisionPoint module index, point.key.boxed, .provisionPoint point name)]
  | .declaredBinding name binding =>
      [(.declaredBinding binding, binding.ancestor.boxed, .declaredBinding binding name)]
  | .hostedFactory module index name factory =>
      [(.hostedFactory module index, factory.key.boxed, .hostedFactory factory.name name)]
  | .hostedContract module index name contract =>
      [(.hostedContract module index, contract.key.boxed, .hostedContract contract.name name)]
  | .importedContract id contract site =>
      (.importedContract id, contract.key.boxed, .importedContract contract.name site) ::
        contract.getters.zipIdx.map fun (getter, index) =>
          (.importedGetter id index, getter.injectee.key.boxed, .importedGetter getter site)

theorem Part.map_snd_supplies (part : Part) :
    part.supplies.map Prod.snd = part.wiring.provided := by
  cases part with
  | provisionPoint | hostedContract => simp [supplies, wiring, ofPoint, ofContract, List.flatMap]
  | declaredBinding => simp [supplies, wiring, ofBinding]
  | hostedFactory => simp [supplies, wiring, ofFactory, List.flatMap]
  | importedContract id contract site =>
      have hgetters := map_zipIdx
        (fun getter => (getter.injectee.key.boxed, Source.importedGetter getter site))
        (fun entry => (entry.1.injectee.key.boxed, .importedGetter entry.1 site)) (fun _ => rfl)
        contract.getters
      simp only [supplies, wiring, ofImport, List.map_cons, List.map_map, Function.comp_def,
        provided_append, provided_provide, provided_join, List.flatMap_map, hgetters]
      rw [← List.map_eq_flatMap]
      rfl

/-! ## Parts with the same tag -/

def Part.relabel (name : ClassName) (site : ImportSite) : Part → Part
  | .provisionPoint module index _ point => .provisionPoint module index name point
  | .declaredBinding _ binding => .declaredBinding name binding
  | .hostedFactory module index _ factory => .hostedFactory module index name factory
  | .hostedContract module index _ contract => .hostedContract module index name contract
  | .importedContract id contract _ => .importedContract id contract site

theorem Part.required_relabel (part : Part) (name : ClassName) (site : ImportSite) :
    (part.relabel name site).wiring.required = part.wiring.required := by
  cases part <;>
    simp [relabel, wiring, ofPoint, ofBinding, ofFactory, ofContract, ofImport, List.flatMap_map]

theorem Part.edges_relabel (part : Part) (name : ClassName) (site : ImportSite) :
    (part.relabel name site).wiring.edges = part.wiring.edges := by
  cases part <;>
    simp [relabel, wiring, ofPoint, ofBinding, ofFactory, ofContract, ofImport, List.flatMap_map]

theorem Part.supplies_relabel {part : Part} {name : ClassName} {site : ImportSite} {place : Place}
    {key : Key} {source : Source} (h : (place, key, source) ∈ part.supplies) :
    ∃ other, (place, key, other) ∈ (part.relabel name site).supplies := by
  cases part with
  | importedContract id contract first =>
      rcases List.mem_cons.1 h with heq | hgetter
      · cases heq
        exact ⟨_, List.mem_cons_self ..⟩
      · obtain ⟨entry, hentry, heq⟩ := List.mem_map.1 hgetter
        cases heq
        exact ⟨_, List.mem_cons_of_mem _ (List.mem_map.2 ⟨entry, hentry, rfl⟩)⟩
  | _ =>
      cases List.mem_singleton.1 h
      exact ⟨_, List.mem_singleton_self _⟩

section Container

variable {graph : ObjectGraph} {root : Id .module} {part : Part}

theorem eq_of_effective {target : Id .module} {first second : Module}
    (hfirst : graph.Effective root target first) (hsecond : graph.Effective root target second) :
    first = second :=
  Option.some.inj (hfirst.2.symm.trans hsecond.2)

theorem PartOf.eq_relabel {target there : Id .module} {module away : Module} {other : Part}
    (hmodule : graph.Effective root target module) (hpart : PartOf graph target module part)
    (haway : graph.Effective root there away) (hother : PartOf graph there away other)
    (htag : other.tag = part.tag) : ∃ name site, other = part.relabel name site := by
  cases hpart <;> cases hother <;> simp only [Part.tag, Tag.provisionPoint.injEq,
    Tag.declaredBinding.injEq, Tag.hostedFactory.injEq, Tag.hostedContract.injEq,
    Tag.importedContract.injEq, reduceCtorEq] at htag
  -- Parts of one tag are in one module, except for bindings and imports, which any module may
  -- repeat.
  case provisionPoint.provisionPoint hpoint _ _ hother =>
    obtain ⟨rfl, rfl⟩ := htag
    obtain rfl := eq_of_effective hmodule haway
    cases Option.some.inj (hpoint.symm.trans hother)
    exact ⟨module.name, .field module.name "", rfl⟩
  case declaredBinding.declaredBinding =>
    obtain rfl := htag
    exact ⟨away.name, .field away.name "", rfl⟩
  case hostedFactory.hostedFactory hfactory _ _ hother =>
    obtain ⟨rfl, rfl⟩ := htag
    obtain rfl := eq_of_effective hmodule haway
    cases Option.some.inj (hfactory.symm.trans hother)
    exact ⟨module.name, .field module.name "", rfl⟩
  case hostedContract.hostedContract hcontract _ _ hother =>
    obtain ⟨rfl, rfl⟩ := htag
    obtain rfl := eq_of_effective hmodule haway
    cases Option.some.inj (hcontract.symm.trans hother)
    exact ⟨module.name, .field module.name "", rfl⟩
  case importedContract.importedContract hcontract _ _ site _ _ hother =>
    obtain rfl := htag
    cases Option.some.inj (hcontract.symm.trans hother)
    exact ⟨module.name, site, rfl⟩

theorem exists_relabel_mem_parts {target : Id .module} {module : Module}
    (hmodule : graph.Effective root target module) (hpart : PartOf graph target module part) :
    ∃ name site, part.relabel name site ∈ parts graph root := by
  obtain ⟨other, hmem, htag⟩ := exists_mem_parts hmodule hpart
  obtain ⟨there, away, haway, hother⟩ := partOf_of_mem_parts hmem
  obtain ⟨name, site, rfl⟩ := hpart.eq_relabel hmodule haway hother htag
  exact ⟨name, site, hmem⟩

/-! ## Requirements and edges -/

theorem PartOf.requires {target : Id .module} {module : Module} {key : Key} {requirer : Requirer}
    (hmodule : graph.Effective root target module) (hpart : PartOf graph target module part)
    (h : (key, requirer) ∈ part.wiring.required) : Requires graph root key requirer := by
  cases hpart with
  | provisionPoint hpoint =>
      simp only [Part.wiring, ofPoint, required_append, required_provide, required_join,
        List.flatMap_map, required_require, required_order, List.nil_append, List.append_nil,
        List.mem_flatMap, List.mem_singleton, Prod.mk.injEq] at h
      obtain ⟨injectee, hinjectee, rfl, rfl⟩ := h
      exact .provisionPoint hmodule (List.mem_of_getElem? hpoint) hinjectee
  | declaredBinding hbinding =>
      simp only [Part.wiring, ofBinding, required_append, required_provide, required_require,
        required_order, List.nil_append, List.append_nil, List.mem_singleton, Prod.mk.injEq] at h
      obtain ⟨rfl, rfl⟩ := h
      exact .declaredBinding hmodule hbinding
  | hostedFactory hfactory =>
      simp only [Part.wiring, ofFactory, required_append, required_provide, required_join,
        List.flatMap_map, required_require, List.nil_append, List.mem_flatMap, List.mem_filterMap,
        List.mem_singleton, Prod.mk.injEq] at h
      obtain ⟨method, hmethod, dependency, ⟨argument, hargument, hinjected⟩, rfl, rfl⟩ := h
      cases argument with
      | passed => cases hinjected
      | injected =>
          cases hinjected
          exact .factoryMethod hmodule (List.mem_of_getElem? hfactory) hmethod hargument
  | hostedContract hcontract =>
      simp only [Part.wiring, ofContract, required_append, required_provide, required_join,
        List.flatMap_map, required_require, required_order, List.nil_append, List.append_nil,
        List.mem_flatMap, List.mem_singleton, Prod.mk.injEq] at h
      obtain ⟨getter, hgetter, rfl, rfl⟩ := h
      exact .getter hmodule (List.mem_of_getElem? hcontract) hgetter
  | importedContract =>
      simp [Part.wiring, ofImport, List.flatMap_map] at h

theorem Requires.exists_part {key : Key} {requirer : Requirer}
    (h : Requires graph root key requirer) :
    ∃ target module part, graph.Effective root target module ∧ PartOf graph target module part ∧
      (key, requirer) ∈ part.wiring.required := by
  cases h with
  | provisionPoint hmodule hpoint hinjectee =>
      obtain ⟨index, hindex⟩ := List.getElem?_of_mem hpoint
      refine ⟨_, _, _, hmodule, .provisionPoint hindex, ?_⟩
      simpa [Part.wiring, ofPoint, List.flatMap_map] using ⟨_, hinjectee, rfl⟩
  | declaredBinding hmodule hbinding =>
      refine ⟨_, _, _, hmodule, .declaredBinding hbinding, ?_⟩
      simp [Part.wiring, ofBinding, Dependency.direct]
  | factoryMethod hmodule hfactory hmethod hargument =>
      obtain ⟨index, hindex⟩ := List.getElem?_of_mem hfactory
      refine ⟨_, _, _, hmodule, .hostedFactory hindex, ?_⟩
      simpa [Part.wiring, ofFactory, List.flatMap_map] using
        ⟨_, hmethod, _, ⟨_, hargument, rfl⟩, rfl, rfl⟩
  | getter hmodule hcontract hgetter =>
      obtain ⟨index, hindex⟩ := List.getElem?_of_mem hcontract
      refine ⟨_, _, _, hmodule, .hostedContract hindex, ?_⟩
      simpa [Part.wiring, ofContract, List.flatMap_map] using ⟨_, hgetter, rfl, rfl, rfl⟩

theorem mem_required_iff {key : Key} {requirer : Requirer} :
    (key, requirer) ∈ (ofRoot graph root).required ↔ Requires graph root key requirer := by
  rw [ofRoot_eq_join]
  simp only [required_append, required_provide, List.nil_append, required_join, List.mem_flatMap,
    List.mem_map, exists_exists_and_eq_and]
  constructor
  · rintro ⟨part, hmem, hrequired⟩
    obtain ⟨target, module, hmodule, hpart⟩ := partOf_of_mem_parts hmem
    exact hpart.requires hmodule hrequired
  · intro h
    obtain ⟨target, module, part, hmodule, hpart, hrequired⟩ := h.exists_part
    obtain ⟨name, site, hmem⟩ := exists_relabel_mem_parts hmodule hpart
    exact ⟨_, hmem, by rwa [Part.required_relabel]⟩

theorem PartOf.eagerEdge {target : Id .module} {module : Module} {a b : Key}
    (hmodule : graph.Effective root target module) (hpart : PartOf graph target module part)
    (h : (a, b) ∈ part.wiring.edges) : EagerEdge graph root a b := by
  cases hpart with
  | provisionPoint hpoint =>
      simp only [Part.wiring, ofPoint, edges_append, edges_provide, edges_join, List.flatMap_map,
        edges_require, List.nil_append, List.mem_flatMap, mem_edges_order, Prod.mk.injEq] at h
      obtain ⟨injectee, hinjectee, hdirect, rfl, rfl⟩ := h
      exact .provisionPoint hmodule (List.mem_of_getElem? hpoint) hinjectee hdirect
  | declaredBinding hbinding =>
      simp only [Part.wiring, ofBinding, edges_append, edges_provide, edges_require,
        List.nil_append, mem_edges_order, Prod.mk.injEq] at h
      obtain ⟨-, rfl, rfl⟩ := h
      exact .declaredBinding hmodule hbinding
  | hostedContract hcontract =>
      simp only [Part.wiring, ofContract, edges_append, edges_provide, edges_join,
        List.flatMap_map, edges_require, List.nil_append, List.mem_flatMap, mem_edges_order,
        Prod.mk.injEq] at h
      obtain ⟨getter, hgetter, hdirect, rfl, rfl⟩ := h
      exact .getter hmodule (List.mem_of_getElem? hcontract) hgetter hdirect
  | hostedFactory | importedContract =>
      simp [Part.wiring, ofFactory, ofImport, List.flatMap_map] at h

theorem EagerEdge.exists_part {a b : Key} (h : EagerEdge graph root a b) :
    ∃ target module part, graph.Effective root target module ∧ PartOf graph target module part ∧
      (a, b) ∈ part.wiring.edges := by
  cases h with
  | provisionPoint hmodule hpoint hinjectee hdirect =>
      obtain ⟨index, hindex⟩ := List.getElem?_of_mem hpoint
      refine ⟨_, _, _, hmodule, .provisionPoint hindex, ?_⟩
      simpa [Part.wiring, ofPoint, List.flatMap_map, mem_edges_order] using
        ⟨_, hinjectee, hdirect, rfl⟩
  | declaredBinding hmodule hbinding =>
      refine ⟨_, _, _, hmodule, .declaredBinding hbinding, ?_⟩
      simp [Part.wiring, ofBinding, Dependency.direct, mem_edges_order]
  | getter hmodule hcontract hgetter hdirect =>
      obtain ⟨index, hindex⟩ := List.getElem?_of_mem hcontract
      refine ⟨_, _, _, hmodule, .hostedContract hindex, ?_⟩
      simpa [Part.wiring, ofContract, List.flatMap_map, mem_edges_order] using
        ⟨_, hgetter, hdirect, rfl⟩

theorem mem_edges_iff {a b : Key} :
    (a, b) ∈ (ofRoot graph root).edges ↔ EagerEdge graph root a b := by
  rw [ofRoot_eq_join]
  simp only [edges_append, edges_provide, List.nil_append, edges_join, List.mem_flatMap,
    List.mem_map, exists_exists_and_eq_and]
  constructor
  · rintro ⟨part, hmem, hedge⟩
    obtain ⟨target, module, hmodule, hpart⟩ := partOf_of_mem_parts hmem
    exact hpart.eagerEdge hmodule hedge
  · intro h
    obtain ⟨target, module, part, hmodule, hpart, hedge⟩ := h.exists_part
    obtain ⟨name, site, hmem⟩ := exists_relabel_mem_parts hmodule hpart
    exact ⟨_, hmem, by rwa [Part.edges_relabel]⟩

/-! ## Sources -/

def supplies (graph : ObjectGraph) (root : Id .module) : List (Place × Key × Source) :=
  (.injector, (Key.ofClass Vocabulary.injector).boxed, .injector) ::
    (parts graph root).flatMap Part.supplies

theorem map_snd_supplies (graph : ObjectGraph) (root : Id .module) :
    (supplies graph root).map Prod.snd = (ofRoot graph root).provided := by
  rw [ofRoot_eq_join, supplies]
  simp only [List.map_cons, List.map_flatMap, Part.map_snd_supplies, provided_append,
    provided_provide, provided_join, List.flatMap_map, List.singleton_append]

def Place.tag? : Place → Option Tag
  | .injector => none
  | .provisionPoint module index => some (.provisionPoint module index)
  | .declaredBinding binding => some (.declaredBinding binding)
  | .hostedFactory module index => some (.hostedFactory module index)
  | .hostedContract module index => some (.hostedContract module index)
  | .importedContract contract | .importedGetter contract _ => some (.importedContract contract)

theorem Part.tag?_of_mem_supplies {place : Place} (h : place ∈ part.supplies.map Prod.fst) :
    place.tag? = some part.tag := by
  cases part with
  | importedContract id contract site =>
      rcases List.mem_cons.1 h with rfl | hgetter
      · rfl
      · rw [List.map_map] at hgetter
        obtain ⟨getter, -, rfl⟩ := List.mem_map.1 hgetter
        rfl
  | _ =>
      cases List.mem_singleton.1 h
      rfl

theorem Part.nodup_supplies (part : Part) : (part.supplies.map Prod.fst).Nodup := by
  cases part with
  | importedContract id contract site =>
      rw [supplies, List.map_cons, List.nodup_cons, List.map_map]
      constructor
      · simp
      · rw [show Prod.fst ∘ (fun entry : Getter × Nat => (Place.importedGetter id entry.2,
            entry.1.injectee.key.boxed, Source.importedGetter entry.1 site)) =
          Place.importedGetter id ∘ Prod.snd from rfl, ← List.map_map, List.zipIdx_map_snd]
        exact List.Nodup.map (fun _ _ h => by simpa using h) List.nodup_range'
  | _ => exact List.pairwise_singleton _ _

theorem nodup_supplies (graph : ObjectGraph) (root : Id .module) :
    ((supplies graph root).map Prod.fst).Nodup := by
  have hparts := nodup_parts graph root
  rw [List.Nodup, List.pairwise_map] at hparts
  rw [supplies, List.map_cons, List.map_flatMap, List.nodup_cons, List.nodup_flatMap]
  refine ⟨?_, fun part _ => part.nodup_supplies, hparts.imp fun hne => ?_⟩
  · intro hmem
    obtain ⟨part, -, hplace⟩ := List.mem_flatMap.1 hmem
    cases Part.tag?_of_mem_supplies hplace
  · intro place hfirst hsecond
    exact hne (Option.some.inj
      ((Part.tag?_of_mem_supplies hfirst).symm.trans (Part.tag?_of_mem_supplies hsecond)))

theorem PartOf.provides {target : Id .module} {module : Module} {place : Place} {key : Key}
    {source : Source} (hmodule : graph.Effective root target module)
    (hpart : PartOf graph target module part) (h : (place, key, source) ∈ part.supplies) :
    Provides graph root place key source := by
  cases hpart with
  | provisionPoint hpoint =>
      cases List.mem_singleton.1 h
      exact .provisionPoint hmodule hpoint
  | declaredBinding hbinding =>
      cases List.mem_singleton.1 h
      exact .declaredBinding hmodule hbinding
  | hostedFactory hfactory =>
      cases List.mem_singleton.1 h
      exact .hostedFactory hmodule hfactory
  | hostedContract hcontract =>
      cases List.mem_singleton.1 h
      exact .hostedContract hmodule hcontract
  | importedContract himport hcontract =>
      rcases List.mem_cons.1 h with heq | hgetter
      · cases heq
        exact .importedContract hmodule himport hcontract
      · obtain ⟨⟨getter, index⟩, hentry, heq⟩ := List.mem_map.1 hgetter
        cases heq
        exact .importedGetter hmodule himport hcontract (List.mem_zipIdx_iff_getElem?.1 hentry)

theorem provides_of_mem_supplies {place : Place} {key : Key} {source : Source}
    (h : (place, key, source) ∈ supplies graph root) : Provides graph root place key source := by
  rcases List.mem_cons.1 h with heq | hpart
  · cases heq
    exact .injector
  · obtain ⟨part, hmem, hsupply⟩ := List.mem_flatMap.1 hpart
    obtain ⟨target, module, hmodule, hpart⟩ := partOf_of_mem_parts hmem
    exact hpart.provides hmodule hsupply

theorem exists_mem_supplies {place : Place} {key : Key} {source : Source}
    (h : Provides graph root place key source) :
    ∃ listed, (place, key, listed) ∈ supplies graph root := by
  have hlist : ∀ {target : Id .module} {module : Module} {part : Part} {source : Source},
      graph.Effective root target module → PartOf graph target module part →
      (place, key, source) ∈ part.supplies →
      ∃ listed, (place, key, listed) ∈ supplies graph root := by
    intro target module part source hmodule hpart hsupply
    obtain ⟨name, site, hmem⟩ := exists_relabel_mem_parts hmodule hpart
    obtain ⟨listed, hlisted⟩ := @Part.supplies_relabel part name site _ _ _ hsupply
    exact ⟨listed, List.mem_cons_of_mem _ (List.mem_flatMap.2 ⟨_, hmem, hlisted⟩)⟩
  cases h with
  | injector => exact ⟨_, List.mem_cons_self ..⟩
  | provisionPoint hmodule hpoint =>
      exact hlist hmodule (.provisionPoint hpoint) (List.mem_singleton_self _)
  | declaredBinding hmodule hbinding =>
      exact hlist hmodule (.declaredBinding hbinding) (List.mem_singleton_self _)
  | hostedFactory hmodule hfactory =>
      exact hlist hmodule (.hostedFactory hfactory) (List.mem_singleton_self _)
  | hostedContract hmodule hcontract =>
      exact hlist hmodule (.hostedContract hcontract) (List.mem_singleton_self _)
  | importedContract hmodule himport hcontract =>
      exact hlist hmodule (.importedContract himport hcontract) (List.mem_cons_self ..)
  | @importedGetter _ _ _ _ _ _ index getter hmodule himport hcontract hgetter =>
      exact hlist hmodule (.importedContract himport hcontract) (List.mem_cons_of_mem _
        (List.mem_map.2 ⟨(getter, index), List.mem_zipIdx_iff_getElem?.2 hgetter, rfl⟩))

end Container

end InjectionCompiler.Wiring
