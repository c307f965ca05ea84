import InjectionCompiler.Proofs.Bindings
import InjectionCompiler.Proofs.Rereading
import Mathlib.Data.Multiset.Dedup

/-!
# Graphs alike

The graphs of rearranged paths differ in their ids and in the order of their parts.  Told by names
and in no order, they are alike: modules of one name show the same.
-/

namespace InjectionCompiler

theorem Arena.named?_of_mem {entity : Entity} {α : Type} {nameOf : α → ClassName}
    {arena : Arena entity α} (h : arena.Named nameOf) {item : α} (hitem : item ∈ arena.items) :
    arena.named? (nameOf item) = some item := by
  obtain ⟨id, hget⟩ := exists_get?_of_mem hitem
  obtain ⟨name, -, hnamed⟩ := named?_of_get? hget
  rwa [h _ _ hnamed]

/-- What a module provides, and which contracts it imports. -/
structure Showing where
  name : ClassName
  points : Multiset ProvisionPoint
  bindings : Multiset Binding
  factories : Multiset Factory
  contracts : Multiset Contract
  imports : Multiset Contract

def Showing.blank (name : ClassName) : Showing :=
  ⟨name, 0, 0, 0, 0, 0⟩

/-- What a module shows, with the entities in place of their ids. -/
def ObjectGraph.showing (graph : ObjectGraph) (module : Module) : Showing where
  name := module.name
  points := module.provisionPoints
  bindings := module.bindings
  factories := graph.hostedFactories module
  contracts := graph.hostedContracts module
  imports := ((Wiring.contractImports module).map Prod.fst).filterMap graph.contracts.get?

/-- A container by its name, with what its effective modules show. -/
def ObjectGraph.outlook (graph : ObjectGraph) (container : Container) :
    ClassName × Multiset Showing :=
  (container.name, (graph.effectiveModules container.module).map graph.showing)

def NamedImport.contract? : NamedImport → Option ClassName
  | .module _ _ _ => none
  | .contract name _ _ => some name

theorem ObjectGraph.mem_items_of_mem_effectiveModules {graph : ObjectGraph} {root : Id .module}
    {module : Module} (h : module ∈ graph.effectiveModules root) :
    module ∈ graph.modules.items := by
  obtain ⟨id, -, hget⟩ := List.mem_filterMap.1 h
  exact Arena.mem_items_of_get? hget

/-! ## Told by names -/

namespace ClassPath

section

variable (path : ClassPath) (hlayered : path.Layered) (project : String)

def declaredBindings : List Binding :=
  path.decls.flatMap fun decl => (path.readClassBindings decl).value

def hostedOf {α : Type} (nameOf : α → ClassName) (entities : List α) (container : ClassName) :
    List α :=
  entities.flatMap fun entity =>
    ((path.hosts (nameOf entity)).filter (· = container)).map fun _ => entity

def contractsHostedBy (container : ClassName) : List ClassName :=
  path.hostedOf id (path.contractDecls.map ClassDecl.name) container ++
    (path.configurations.lookup container).toList

def bindingsOf (keys : List Key) : Multiset Binding :=
  (path.declaredBindings.filter fun binding =>
    binding.implementation.boxed ∈ keys.map Key.boxed : Multiset Binding).dedup

/-- What the module of a class shows.  One with type parameters shows nothing. -/
noncomputable def showingOf (decl : ClassDecl) : Showing :=
  let points := (path.pointsOf decl).value
  let factories := path.hostedOf Factory.name path.factories decl.name
  let contracts := (path.contractsHostedBy decl.name).map (path.contractOf hlayered project)
  if decl.typeParameters.isEmpty then
    { name := decl.name
      points := points
      bindings := path.bindingsOf (points.map ProvisionPoint.key ++ factories.map Factory.key ++
        contracts.map Contract.key)
      factories := factories
      contracts := contracts
      imports := ((path.declaredImports decl).filterMap NamedImport.contract?).map
        (path.contractOf hlayered project) }
  else .blank decl.name

noncomputable def showingUnder (name : ClassName) : Showing :=
  (path.find? name).elim (.blank name) (path.showingOf hlayered project)

end

variable {path : ClassPath} {hlayered : path.Layered} {project : String}

theorem mem_bindingsOf {keys : List Key} {binding : Binding} :
    binding ∈ path.bindingsOf keys ↔
      binding ∈ path.declaredBindings ∧ ∃ key ∈ keys, binding.implementation.boxed = key.boxed := by
  simp only [bindingsOf, Multiset.mem_dedup, Multiset.mem_coe, List.mem_filter, List.mem_map,
    decide_eq_true_eq, eq_comm (b := binding.implementation.boxed)]

theorem bindingsOf_perm {other : ClassPath}
    (hdeclared : path.declaredBindings.Perm other.declaredBindings) {keys others : List Key}
    (hkeys : keys.Perm others) : path.bindingsOf keys = other.bindingsOf others := by
  have hnodup : ∀ (path : ClassPath) keys, (path.bindingsOf keys).Nodup :=
    fun _ _ => Multiset.nodup_dedup _
  refine (Multiset.Nodup.ext (hnodup _ _) (hnodup _ _)).2 fun binding => ?_
  simp only [mem_bindingsOf, hkeys.mem_iff, hdeclared.mem_iff]

theorem lists_readBindings (path : ClassPath) :
    path.readBindings.value.Lists path.declaredBindings := by
  simp only [readBindings, Logged.value_bind, Logged.value_pure, Logged.value_mapM]
  exact BindingIndex.lists_foldl _

theorem firsts_ofImplementation (keys : List Key) :
    (firsts id (keys.flatMap path.readBindings.value.ofImplementation) : Multiset Binding) =
      path.bindingsOf keys := by
  have hlists := path.lists_readBindings
  have hset : (path.bindingsOf keys).Nodup := Multiset.nodup_dedup _
  refine (Multiset.Nodup.ext (Multiset.coe_nodup.2 (nodup_firsts_id _)) hset).2 fun binding => ?_
  rw [mem_bindingsOf, Multiset.mem_coe, mem_firsts_id, List.mem_flatMap]
  constructor
  · rintro ⟨key, hkey, hmem⟩
    obtain ⟨hdeclared, heq⟩ := hlists.mem_ofImplementation.1 hmem
    exact ⟨hdeclared, key, hkey, heq⟩
  · rintro ⟨hdeclared, key, hkey, heq⟩
    exact ⟨key, hkey, hlists.mem_ofImplementation.2 ⟨hdeclared, heq⟩⟩

/-! ## What modules show -/

theorem filterMap_hostedIds {entity : Entity} {α : Type} {nameOf : α → ClassName}
    {arena larger : Arena entity α}
    (h : ∀ id item, arena.get? id = some item → larger.get? id = some item)
    (container : ClassName) :
    (hostedBy (path.hostedIds nameOf arena) container).filterMap larger.get? =
      path.hostedOf nameOf arena.items container := by
  rw [hostedOf, ← items_of_entries, List.flatMap_map, hostedBy, hostedIds, List.filter_flatMap,
    List.map_flatMap, List.filterMap_flatMap]
  refine List.flatMap_congr fun entry hentry => ?_
  have hitem := h entry.1 entry.2 (Arena.get?_of_mem_entries hentry)
  rw [List.filter_map, List.map_map, List.filterMap_map]
  have hsome : larger.get? ∘ Prod.snd ∘ (fun host => (host, entry.1)) =
      some ∘ fun _ : ClassName => entry.2 := funext fun _ => hitem
  rw [hsome, List.filterMap_eq_map]
  rfl

section

variable {marked book : ContractBook} {configured : List (ClassName × Id .contract)}
  {graph : ObjectGraph} {count : Nat}

theorem Portrays.items_factories (h : path.Portrays project marked book configured graph) :
    graph.factories.items = path.factories := by
  rw [Arena.items, Table.values, h.factories, List.map_map]
  exact List.map_id _

namespace ReadExactly

variable (h : path.ReadExactly hlayered project marked book configured graph count)

include h

theorem get?_of_nameOf? {id : Id .contract} {name : ClassName}
    (hname : graph.contracts.nameOf? id = some name) :
    graph.contracts.get? id = some (path.contractOf hlayered project name) := by
  obtain ⟨contract, hget, hnamed⟩ := Arena.exists_get?_of_nameOf? hname
  rw [h.portrays.contracts] at hnamed
  rw [hget, h.exact.contracts name contract hnamed]

theorem items_marked :
    marked.contracts.items = marked.contracts.names.map (path.contractOf hlayered project) := by
  rw [Arena.items, Table.values, Arena.names, Table.keys, List.map_map]
  refine List.map_congr_left fun entry hentry => ?_
  refine h.exact.contracts entry.1 entry.2 (Table.find?_eq_some_iff.2 ?_)
  exact h.portrays.marked_extended.subset hentry

theorem hostedContracts_perm (container : ClassName) :
    ((hostedBy (path.hostedIds Contract.name marked.contracts) container).filterMap
        graph.contracts.get?).Perm
      ((path.hostedOf id (path.contractDecls.map ClassDecl.name) container).map
        (path.contractOf hlayered project)) := by
  have hlarger : ∀ id contract, marked.contracts.get? id = some contract →
      graph.contracts.get? id = some contract := by
    intro id contract hget
    rw [h.portrays.contracts, get?_of_extends h.portrays.marked_extended
      (Arena.exists_get?_iff.1 ⟨contract, hget⟩)]
    exact hget
  rw [filterMap_hostedIds hlarger, h.items_marked, hostedOf, hostedOf, List.flatMap_map,
    List.map_flatMap]
  simp only [List.map_map]
  exact h.portrays.marked_names.flatMap_right _

theorem lookup_of_serves {declared : List (ClassName × ClassName)}
    {read : List (ClassName × Id .contract)} (hserves : List.Forall₂ book.Serves declared read)
    (container : ClassName) :
    (read.lookup container).toList.filterMap graph.contracts.get? =
      (declared.lookup container).toList.map (path.contractOf hlayered project) := by
  induction hserves with
  | nil => rfl
  | @cons declared read _ _ hhead _ ih =>
      obtain ⟨name, id⟩ := read
      obtain ⟨hname, hid⟩ := hhead
      rw [List.lookup_cons, List.lookup_cons, ← hname]
      rw [← h.portrays.contracts] at hid
      dsimp only
      split
      · simp only [Option.toList_some, List.filterMap_cons, h.get?_of_nameOf? hid,
          List.filterMap_nil, List.map_cons, List.map_nil]
      · exact ih

theorem contractImports_eq {declared : List NamedImport} {module : Module}
    (hlinks : List.Forall₂ graph.Links declared module.imports) :
    ((Wiring.contractImports module).map Prod.fst).filterMap graph.contracts.get? =
      (declared.filterMap NamedImport.contract?).map (path.contractOf hlayered project) := by
  unfold Wiring.contractImports
  generalize module.imports = imports at hlinks ⊢
  induction hlinks with
  | nil => rfl
  | cons hlink _ ih =>
      cases hlink with
      | module site wrapped hname => exact ih
      | contract site wrapped hname =>
          exact (List.filterMap_cons_some (h.get?_of_nameOf? hname)).trans (congrArg _ ih)

theorem showing_eq {name : ClassName} {module : Module}
    (hmodule : graph.modules.named? name = some module) :
    graph.showing module = path.showingUnder hlayered project name := by
  obtain ⟨decl, hdecl, hlinks, hread⟩ := h.portrays.exists_decl hmodule
  -- The class tells the imports in any case; all else is there only for a class without type
  -- parameters.
  have himports := h.contractImports_eq hlinks
  rw [showingUnder, hdecl, Option.elim_some, showingOf, ObjectGraph.showing, himports]
  cases hplain : decl.typeParameters.isEmpty with
  | false =>
      simp only [moduleOf, hplain, Module.empty, Bool.false_eq_true, if_false, Module.mk.injEq]
        at hread
      obtain ⟨hname, -, hpoints, hbindings, hfactories, hcontracts⟩ := hread
      rw [declaredImports, hplain, ObjectGraph.hostedFactories, ObjectGraph.hostedContracts,
        hname, hpoints, hbindings, hfactories, hcontracts]
      rfl
  | true =>
      simp only [moduleOf, hplain, if_true, Module.mk.injEq] at hread
      obtain ⟨hname, -, hpoints, hbindings, hfactories, hcontracts⟩ := hread
      have hfactoryItems : graph.hostedFactories module =
          path.hostedOf Factory.name path.factories decl.name := by
        rw [← h.portrays.items_factories, ObjectGraph.hostedFactories, hfactories]
        exact filterMap_hostedIds (fun _ _ => id) decl.name
      have hcontractItems : (graph.hostedContracts module).Perm
          ((path.contractsHostedBy decl.name).map (path.contractOf hlayered project)) := by
        rw [ObjectGraph.hostedContracts, hcontracts, List.filterMap_append, contractsHostedBy,
          List.map_append]
        exact (h.hostedContracts_perm decl.name).append
          (.of_eq (h.lookup_of_serves h.portrays.serves decl.name))
      -- Bindings are looked up by the keys of all that the module provides, so these come last.
      have hkeys : moduleKeys
          (path.sourcesOf project graph.factories marked.contracts configured) book
          (path.pointsOf decl).value module.factories module.contracts =
            (path.pointsOf decl).value.map ProvisionPoint.key ++
              (graph.hostedFactories module).map Factory.key ++
              (graph.hostedContracts module).map Contract.key := by
        rw [moduleKeys, ObjectGraph.hostedContracts, h.portrays.contracts]
        rfl
      have hbound : (module.bindings : Multiset Binding) =
          path.bindingsOf ((path.pointsOf decl).value.map ProvisionPoint.key ++
            (path.hostedOf Factory.name path.factories decl.name).map Factory.key ++
            ((path.contractsHostedBy decl.name).map (path.contractOf hlayered project)).map
              Contract.key) := by
        rw [hbindings, ← hfactories, ← hcontracts, hkeys, hfactoryItems]
        exact (firsts_ofImplementation _).trans
          (bindingsOf_perm (.refl _) ((hcontractItems.map Contract.key).append_left _))
      rw [if_pos rfl, hname, hpoints, hfactoryItems, hbound, Multiset.coe_eq_coe.2 hcontractItems]

theorem map_showing {modules : List Module}
    (hmodules : ∀ module ∈ modules, module ∈ graph.modules.items) :
    modules.map graph.showing =
      (modules.map Module.name).map (path.showingUnder hlayered project) := by
  rw [List.map_map]
  refine List.map_congr_left fun module hmodule => ?_
  exact h.showing_eq (Arena.named?_of_mem h.portrays.named (hmodules module hmodule))

end ReadExactly

end

/-! ## Rearranged paths -/

theorem lookup_eq_find? {κ α : Type} [DecidableEq κ] (entries : List (κ × α)) (key : κ) :
    entries.lookup key = (entries.find? fun entry => entry.1 = key).map Prod.snd := by
  induction entries with
  | nil => rfl
  | cons entry entries ih =>
      obtain ⟨first, item⟩ := entry
      by_cases hkey : key = first
      · subst hkey
        simp
      · have hne : (key == first) = false := by simpa using hkey
        rw [List.lookup_cons, hne, List.find?_cons_of_neg (by simpa using Ne.symm hkey)]
        exact ih

namespace Rearranges

variable {other : ClassPath} {hothers : other.Layered} (h : path.Rearranges other)

include h

theorem declaredBindings_perm : path.declaredBindings.Perm other.declaredBindings := by
  simp only [declaredBindings, h.readClassBindings]
  exact h.decls_perm.flatMap_right _

theorem pointsOf_perm (decl : ClassDecl) :
    (path.pointsOf decl).value.Perm (other.pointsOf decl).value := by
  rw [value_pointsOf, value_pointsOf, h.memberPoints]
  exact (h.hostedPoints_perm decl.name).append_right _

theorem hostedOf_perm {α : Type} {nameOf : α → ClassName} {entities others : List α}
    (hperm : entities.Perm others) (container : ClassName) :
    (path.hostedOf nameOf entities container).Perm (other.hostedOf nameOf others container) := by
  simp only [hostedOf, h.hosts]
  exact hperm.flatMap_right _

theorem contractsHostedBy_perm (container : ClassName) :
    (path.contractsHostedBy container).Perm (other.contractsHostedBy container) := by
  have hnodup : (path.configurations.map Prod.fst).Nodup := by
    refine path.nodup_decls.sublist (map_filterMap_sublist (fun decl entry hentry => ?_) path.decls)
    unfold configuration? at hentry
    split at hentry
    · obtain ⟨_, -, rfl⟩ := Option.map_eq_some_iff.1 hentry
      rfl
    · cases hentry
  rw [contractsHostedBy, contractsHostedBy, lookup_eq_find?, lookup_eq_find?,
    find?_key_perm hnodup h.configurations_perm]
  exact (h.hostedOf_perm (h.contractDecls_perm.map _) container).append_right _

theorem declaredImports_perm (decl : ClassDecl) :
    (path.declaredImports decl).Perm (other.declaredImports decl) := by
  have hmethod : other.methodImport? decl.name = path.methodImport? decl.name :=
    funext (h.methodImport? decl.name)
  have hfield : other.fieldImport? decl.name = path.fieldImport? decl.name :=
    funext (h.fieldImport? decl.name)
  unfold declaredImports
  rw [hmethod, hfield]
  split
  · exact ((hostedBy_perm h.importedBy_perm decl.name).map _).append_left _
  · exact .refl _

theorem showingUnder (project : String) :
    other.showingUnder hothers project = path.showingUnder hlayered project := by
  have hdecl : other.showingOf hothers project = path.showingOf hlayered project := by
    funext decl
    have hcontract : other.contractOf hothers project = path.contractOf hlayered project :=
      funext (h.contractOf project)
    have hpoints := h.pointsOf_perm decl
    have hfactories : (path.hostedOf Factory.name path.factories decl.name).Perm
        (other.hostedOf Factory.name other.factories decl.name) :=
      h.hostedOf_perm h.factories_perm decl.name
    have hcontracts := (h.contractsHostedBy_perm decl.name).map (path.contractOf hlayered project)
    have himports := ((h.declaredImports_perm decl).filterMap NamedImport.contract?).map
      (path.contractOf hlayered project)
    have hkeys := ((hpoints.map ProvisionPoint.key).append (hfactories.map Factory.key)).append
      (hcontracts.map Contract.key)
    simp only [showingOf, hcontract, ← bindingsOf_perm h.declaredBindings_perm hkeys,
      Multiset.coe_eq_coe.2 hpoints.symm, Multiset.coe_eq_coe.2 hfactories.symm,
      Multiset.coe_eq_coe.2 hcontracts.symm, Multiset.coe_eq_coe.2 himports.symm]
  funext name
  rw [ClassPath.showingUnder, ClassPath.showingUnder, h.find?_eq, hdecl]

theorem importsModule : other.ImportsModule other.declaredImports =
    path.ImportsModule path.declaredImports := by
  funext container imported
  simp only [ImportsModule, h.find?_eq, (h.declaredImports_perm _).mem_iff]

end Rearranges

end ClassPath

/-! ## Graphs alike -/

/-- The graphs have the same entities by their names, in any order and under any ids. -/
structure ObjectGraph.Alike (graph other : ObjectGraph) : Prop where
  showings : (graph.modules.items.map graph.showing).Perm (other.modules.items.map other.showing)
  outlooks : (graph.containers.map graph.outlook).Perm (other.containers.map other.outlook)
  components : (graph.components.map Component.name).Perm (other.components.map Component.name)
  configurations : (graph.configurations.map ContractConfiguration.name).Perm
    (other.configurations.map ContractConfiguration.name)
  factories : graph.factories.items.Perm other.factories.items
  injectable : graph.injectable.Perm other.injectable
  providable : graph.providable.Perm other.providable
  bindings : graph.bindings.Perm other.bindings

namespace ClassPath

variable {path other : ClassPath} {project : String} {marked book : ContractBook}
  {configured : List (ClassName × Id .contract)} {graph : ObjectGraph}

theorem map_filterMap_find? {entity : Entity} {α β γ : Type} (arena : Arena entity α)
    (nameOf : β → ClassName) (make : β → Id entity → γ) (newName : γ → ClassName)
    (hmake : ∀ x id, newName (make x id) = nameOf x) {xs : List β}
    (hxs : ∀ x ∈ xs, nameOf x ∈ arena.names) :
    (xs.filterMap fun x => (arena.find? (nameOf x)).map (make x)).map newName =
      xs.map nameOf := by
  induction xs with
  | nil => rfl
  | cons x xs ih =>
      obtain ⟨hx, hrest⟩ := List.forall_mem_cons.1 hxs
      obtain ⟨id, hid⟩ : ∃ id, arena.find? (nameOf x) = some id :=
        Option.ne_none_iff_exists'.1 fun hnone => Arena.not_mem_names_of_find? hnone hx
      rw [List.filterMap_cons_some (by rw [hid]; rfl), List.map_cons, List.map_cons, hmake,
        ih hrest]

theorem Portrays.map_components (h : path.Portrays project marked book configured graph) :
    graph.components.map Component.name = path.componentNames := by
  rw [h.components]
  refine (map_filterMap_find? graph.modules id Component.mk Component.name (fun _ _ => rfl)
    fun name hname => ?_).trans (List.map_id _)
  exact h.mem_names_iff.2 (List.mem_append_left _ (List.mem_append_left _ hname))

theorem Portrays.map_configurations (h : path.Portrays project marked book configured graph) :
    graph.configurations.map ContractConfiguration.name = path.configurations.map Prod.fst := by
  rw [h.configurations, ← names_of_serves h.serves]
  refine map_filterMap_find? graph.modules Prod.fst
    (fun entry => ContractConfiguration.mk entry.1 entry.2) ContractConfiguration.name
    (fun _ _ => rfl) fun entry hentry => ?_
  refine h.mem_names_iff.2 (List.mem_append_left _ (List.mem_append_right _ ?_))
  rw [← names_of_serves h.serves]
  exact List.mem_map_of_mem hentry

theorem Portrays.map_containers (h : path.Portrays project marked book configured graph) :
    graph.containers.map Container.name =
      path.componentNames ++ path.configurations.map Prod.fst := by
  rw [← h.map_components, ← h.map_configurations, ObjectGraph.containers, List.map_append,
    List.map_map, List.map_map]
  rfl

theorem map_perm_of_keys {α β κ γ : Type} {key : α → κ} {otherKey : β → κ} {value : α → γ}
    {otherValue : β → γ} {xs : List α} {ys : List β} (h : (xs.map key).Perm (ys.map otherKey))
    (hvalue : ∀ x ∈ xs, ∀ y ∈ ys, key x = otherKey y → value x = otherValue y) :
    (xs.map value).Perm (ys.map otherValue) := by
  have hsame : List.Forall₂ (fun k y => k = otherKey y) (ys.map otherKey) ys :=
    List.forall₂_map_left_iff.2 (List.forall₂_same.2 fun _ _ => rfl)
  obtain ⟨zs, hzs, hperm⟩ := List.perm_comp_forall₂ h hsame
  refine .trans (.of_eq ?_) (hperm.map otherValue)
  have hmem : ∀ z ∈ zs, z ∈ ys := fun z => hperm.mem_iff.1
  clear h hsame hperm
  rw [List.forall₂_map_left_iff] at hzs
  induction hzs with
  | nil => rfl
  | cons hhead _ ih =>
      rw [List.map_cons, List.map_cons, hvalue _ (List.mem_cons_self ..) _
        (hmem _ (List.mem_cons_self ..)) hhead]
      exact congrArg _ (ih (fun x hx => hvalue x (List.mem_cons_of_mem _ hx))
        fun z hz => hmem z (List.mem_cons_of_mem _ hz))

theorem ReadExactly.alike {hlayered : path.Layered} {hothers : other.Layered}
    {marked' book' : ContractBook} {configured' : List (ClassName × Id .contract)}
    {graph' : ObjectGraph} {count count' : Nat} (h : path.Rearranges other)
    (hread : path.ReadExactly hlayered project marked book configured graph count)
    (hread' : other.ReadExactly hothers project marked' book' configured' graph' count') :
    graph.Alike graph' := by
  have hportrays := hread.portrays
  have hportrays' := hread'.portrays
  have hshowing : other.showingUnder hothers project = path.showingUnder hlayered project :=
    h.showingUnder project
  constructor
  case showings =>
    rw [hread.map_showing fun _ => id, hread'.map_showing fun _ => id, hshowing,
      hportrays.named.map_items, hportrays'.named.map_items, hportrays.names_eq,
      hportrays'.names_eq]
    exact (unseen_perm h.rootNames_perm).map _
  case outlooks =>
    have hnames : (graph.containers.map Container.name).Perm
        (graph'.containers.map Container.name) := by
      rw [hportrays.map_containers, hportrays'.map_containers]
      exact h.componentNames_perm.append (h.configurations_perm.map _)
    refine map_perm_of_keys hnames fun container hcontainer twin htwin hname => ?_
    -- Containers of one name reach modules of the same names, each once on either side.
    have heffective : ((graph.effectiveModules container.module).map Module.name).Perm
        ((graph'.effectiveModules twin.module).map Module.name) := by
      refine (List.perm_ext_iff_of_nodup (nodup_names_effectiveModules hportrays.named _)
        (nodup_names_effectiveModules hportrays'.named _)).2 fun name => ?_
      rw [hportrays.mem_effective_iff hcontainer, hportrays'.mem_effective_iff htwin,
        h.importsModule, hname]
    rw [ObjectGraph.outlook, ObjectGraph.outlook, hname,
      hread.map_showing fun _ => ObjectGraph.mem_items_of_mem_effectiveModules,
      hread'.map_showing fun _ => ObjectGraph.mem_items_of_mem_effectiveModules,
      hshowing, Multiset.coe_eq_coe.2 (heffective.map _)]
  case components =>
    rw [hportrays.map_components, hportrays'.map_components]
    exact h.componentNames_perm
  case configurations =>
    rw [hportrays.map_configurations, hportrays'.map_configurations]
    exact h.configurations_perm.map _
  case factories =>
    rw [hportrays.items_factories, hportrays'.items_factories]
    exact h.factories_perm
  case injectable =>
    rw [hportrays.injectable, hportrays'.injectable]
    exact h.injectable_perm
  case providable =>
    rw [hportrays.providable, hportrays'.providable]
    exact h.providable_perm
  case bindings =>
    rw [hportrays.bindings, hportrays'.bindings]
    refine (List.perm_ext_iff_of_nodup path.lists_readBindings.nodup_all
      other.lists_readBindings.nodup_all).2 fun binding => ?_
    rw [path.lists_readBindings.mem_all, other.lists_readBindings.mem_all,
      h.declaredBindings_perm.mem_iff]

end ClassPath

end InjectionCompiler
