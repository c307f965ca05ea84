import InjectionCompiler.Proofs.ImportClosure

/-!
# No declaration is lost

Importers and hosts are declared away from the container.  Where a path is read without a fault,
each container that is named becomes a module, and this module has what is declared for it.
-/

namespace InjectionCompiler

namespace ClassPath

variable {path : ClassPath} {project : String}

/-! ## A path without faults -/

/-- No list of containers, no root and no module of the path has a fault. -/
structure Faultless (path : ClassPath) : Prop where
  importers : ∀ decl ∈ path.moduleDecls,
    path.listFaults decl.name (annotationList? decl.annotations Vocabulary.importedBy) = 0
  hosts : ∀ name, name ∈ path.providedNames ∨ name ∈ path.factories.map Factory.name ∨
    name ∈ path.contractDecls.map ClassDecl.name → (path.hostToll name).faults = 0
  roots : ∀ decl ∈ path.decls, (rootToll loose decl).faults = 0
  modules : ∀ name ∈ path.rootNames, (path.namedModuleToll loose name).faults = 0

theorem faultless_of_graphToll (h : (path.graphToll loose).faults = 0) : path.Faultless := by
  simp only [graphToll, hostingToll, Toll.faults_add, Nat.add_eq_zero_iff] at h
  obtain ⟨-, -, -, ⟨himporters, hprovided, hfactories, hcontracts⟩, hroots, hmodules⟩ := h
  have heach {α : Type} {toll : α → Toll} {xs : List α} (hsum : (xs.map toll).sum.faults = 0)
      {x : α} (hx : x ∈ xs) : (toll x).faults = 0 :=
    Toll.faults_eq_zero_of_sum hsum (List.mem_map_of_mem hx)
  constructor
  case importers => exact fun decl hdecl => heach himporters hdecl
  case hosts =>
    rintro name (hname | hname | hname)
    · exact heach hprovided hname
    · exact heach hfactories hname
    · exact heach hcontracts hname
  case roots => exact fun decl hdecl => heach hroots hdecl
  case modules =>
    exact fun name hname => heach hmodules (SearchSpace.mem_unseen.2 ⟨hname, List.not_mem_nil⟩)

theorem exists_configuration?_of_faults {decl : ClassDecl} (hconfiguration : decl.isConfiguration)
    (h : (configurationToll loose decl).faults = 0) :
    ∃ contract, configuration? decl = some (decl.name, contract) := by
  unfold configurationToll at h
  unfold configuration?
  cases hplain : decl.typeParameters.isEmpty with
  | false => simp [hconfiguration, hplain] at h
  | true =>
      cases hcontract : configuredContract? decl with
      | none => simp [hconfiguration, hplain, hcontract] at h
      | some contract => exact ⟨contract, by simp [hconfiguration]⟩

theorem Faultless.mem_rootNames (h : path.Faultless) {container : ClassName}
    (hcontainer : path.isContainer container) : container ∈ path.rootNames := by
  obtain ⟨decl, hdecl, hkind⟩ := exists_of_any hcontainer
  have hmem := mem_decls_of_find? hdecl
  have hname := name_of_find? hdecl
  have htoll := h.roots decl hmem
  rw [rootToll, Toll.faults_add, Nat.add_eq_zero_iff] at htoll
  obtain ⟨hcomponentToll, hconfigurationToll⟩ := htoll
  rw [ClassDecl.isContainer, Bool.or_eq_true, Bool.or_eq_true] at hkind
  rcases hkind with (hmodule | hcomponent) | hconfiguration
  · exact List.mem_append_right _
      (List.mem_map.2 ⟨decl, List.mem_filter.2 ⟨hmem, hmodule⟩, hname⟩)
  · have hplain : decl.typeParameters.isEmpty := by
      rw [componentToll, hcomponent, Bool.true_and, Toll.faults_reporting, Bool.toNat_eq_zero,
        Bool.not_eq_false'] at hcomponentToll
      exact hcomponentToll
    refine List.mem_append_left _ (List.mem_append_left _ (List.mem_filterMap.2 ⟨decl, hmem, ?_⟩))
    rw [component?, hcomponent, hplain, hname]
    rfl
  · obtain ⟨contract, hcontract⟩ :=
      exists_configuration?_of_faults hconfiguration hconfigurationToll
    refine List.mem_append_left _ (List.mem_append_right _ (List.mem_map.2
      ⟨_, List.mem_filterMap.2 ⟨decl, hmem, hcontract⟩, hname⟩))

theorem Faultless.isEmpty_typeParameters (h : path.Faultless) {name : ClassName}
    (hname : name ∈ path.rootNames) {decl : ClassDecl} (hdecl : path.find? name = some decl) :
    decl.typeParameters.isEmpty := by
  have htoll := h.modules name hname
  rw [namedModuleToll, hdecl] at htoll
  change (path.moduleToll loose decl).faults = 0 at htoll
  unfold moduleToll at htoll
  split at htoll
  · assumption
  · cases htoll

/-! ## What a container has -/

/-- The container is a module of the graph with the given property. -/
def Hosts (graph : ObjectGraph) (container : ClassName) (Has : Module → Prop) : Prop :=
  ∃ module ∈ graph.modules.items, module.name = container ∧ Has module

/-- Every entry of the list names a container that is a module with the given property. -/
def Declared (graph : ObjectGraph) (entries : Option (List Literal)) (Has : Module → Prop) : Prop :=
  ∀ entry ∈ entries.getD [], ∃ container, entry = .type (.object container) ∧
    Hosts graph container Has

/-- The module has all that is declared for its class away from it. -/
structure Complete (path : ClassPath) (graph : ObjectGraph) (marked : ContractBook)
    (module : Module) : Prop where
  imports : ∀ name ∈ hostedBy path.importedBy module.name,
    ∃ id ∈ module.importedModules, graph.modules.nameOf? id = some name
  points : ∃ decl, decl.name = module.name ∧ module.provisionPoints = (path.pointsOf decl).value
  factories : ∀ id ∈ hostedBy (path.hostedIds Factory.name graph.factories) module.name,
    id ∈ module.factories
  contracts : ∀ id ∈ hostedBy (path.hostedIds Contract.name marked.contracts) module.name,
    id ∈ module.contracts

theorem mem_hostedBy {α : Type} {declared : List (ClassName × α)} {container : ClassName}
    {item : α} (h : (container, item) ∈ declared) : item ∈ hostedBy declared container :=
  List.mem_map.2 ⟨(container, item), List.mem_filter.2 ⟨h, decide_eq_true rfl⟩, rfl⟩

theorem mem_hostedBy_hosted {names : List ClassName} {name host : ClassName} (hname : name ∈ names)
    (hhost : host ∈ path.hosts name) : name ∈ hostedBy (path.hosted names) host :=
  mem_hostedBy (List.mem_flatMap.2 ⟨name, hname, List.mem_map.2 ⟨host, hhost, rfl⟩⟩)

theorem mem_hostedBy_importedBy {decl : ClassDecl} (hdecl : decl ∈ path.moduleDecls)
    {importer : ClassName} (himporter : importer ∈ path.importers decl) :
    decl.name ∈ hostedBy path.importedBy importer :=
  mem_hostedBy (List.mem_flatMap.2 ⟨decl, hdecl, List.mem_map.2 ⟨importer, himporter, rfl⟩⟩)

theorem exists_mem_hostedBy_hostedIds {entity : Entity} {α : Type} {nameOf : α → ClassName}
    {arena : Arena entity α} (hnamed : arena.Named nameOf) {name host : ClassName}
    (hname : name ∈ arena.names) (hhost : host ∈ path.hosts name) :
    ∃ id ∈ hostedBy (path.hostedIds nameOf arena) host, arena.nameOf? id = some name := by
  obtain ⟨index, hindex⟩ := List.getElem?_of_mem hname
  have hid : arena.nameOf? ⟨index⟩ = some name := hindex
  obtain ⟨item, hitem, hstored⟩ := Arena.exists_get?_of_nameOf? hid
  refine ⟨⟨index⟩, mem_hostedBy (List.mem_flatMap.2 ⟨(⟨index⟩, item), ?_, ?_⟩), hid⟩
  · exact Arena.mem_entries_of_get? hitem
  · exact List.mem_map.2 ⟨host, (hnamed _ _ hstored).symm ▸ hhost, rfl⟩

section

variable {marked book : ContractBook} {configured : List (ClassName × Id .contract)}
  {graph : ObjectGraph}

theorem Portrays.exists_complete (h : path.Portrays project marked book configured graph)
    (hfaultless : path.Faultless) {container : ClassName}
    (hcontainer : path.isContainer container) :
    Hosts graph container (path.Complete graph marked) := by
  have hroot := hfaultless.mem_rootNames hcontainer
  obtain ⟨module, hmodule⟩ := Option.isSome_iff_exists.1
    ((Table.find?_isSome_iff graph.modules.table container).2 (h.mem_names_iff.2 hroot))
  obtain ⟨decl, hdecl, hlinks, hread⟩ := h.exists_decl hmodule
  have hplain := hfaultless.isEmpty_typeParameters hroot hdecl
  have hname : module.name = decl.name := by rw [h.named _ _ hmodule, name_of_find? hdecl]
  refine ⟨module, Table.mem_values_of_find? hmodule, h.named _ _ hmodule, ?_⟩
  simp only [moduleOf, hplain, if_true, Module.mk.injEq] at hread
  obtain ⟨-, -, hpoints, -, hfactories, hcontracts⟩ := hread
  constructor
  case imports =>
    intro name hmem
    have hdeclared :
        .module name (.importedBy decl.name name) false ∈ path.declaredImports decl := by
      rw [declaredImports, if_pos hplain]
      exact List.mem_append_right _ (List.mem_map.2 ⟨name, hname ▸ hmem, rfl⟩)
    obtain ⟨linked, hlinked, hlink⟩ := exists_right_of_forall₂ hlinks hdeclared
    cases hlink with
    | module _ _ hid => exact ⟨_, List.mem_filterMap.2 ⟨_, hlinked, rfl⟩, hid⟩
  case points => exact ⟨decl, hname.symm, hpoints⟩
  case factories => exact fun id hid => hfactories ▸ hname ▸ hid
  case contracts => exact fun id hid => hcontracts ▸ List.mem_append_left _ (hname ▸ hid)

theorem Portrays.declared (h : path.Portrays project marked book configured graph)
    (hfaultless : path.Faultless) {hosted : ClassName} {entries : Option (List Literal)}
    (hfaults : path.listFaults hosted entries = 0) {Has : Module → Prop}
    (hhas : ∀ module, path.Complete graph marked module →
      module.name ∈ path.containers hosted entries → Has module) :
    Declared graph entries Has := by
  intro entry hentry
  obtain ⟨listed, rfl⟩ : ∃ listed, entries = some listed := by
    cases entries with
    | none => cases hentry
    | some listed => exact ⟨listed, rfl⟩
  obtain ⟨container, haccepted⟩ := container?_of_listFaults hfaults hentry
  obtain ⟨hentry', hcontainer⟩ := container?_eq_some haccepted
  obtain ⟨module, hmodule, rfl, hcomplete⟩ := h.exists_complete hfaultless hcontainer
  have hlisted := List.mem_filterMap.2 ⟨entry, hentry, haccepted⟩
  exact ⟨module.name, hentry', module, hmodule, rfl, hhas module hcomplete hlisted⟩

/-! ## Hosted entities -/

theorem hosts_of_mem_decls {decl : ClassDecl} (h : decl ∈ path.decls) : path.hosts decl.name =
    path.containers decl.name (annotationList? decl.annotations Vocabulary.providedBy) := by
  rw [hosts, hostList?, find?_of_mem_decls h]
  rfl

theorem listFaults_of_hostToll {decl : ClassDecl} (hdecl : decl ∈ path.decls)
    (h : (path.hostToll decl.name).faults = 0) :
    path.listFaults decl.name (annotationList? decl.annotations Vocabulary.providedBy) = 0 := by
  rw [hostToll, hostList?, find?_of_mem_decls hdecl] at h
  exact h

/-- The constructor of a class as a source of the class. -/
def constructorPoint (path : ClassPath) (decl : ClassDecl) (constructor : MethodDecl) :
    ProvisionPoint where
  owner := decl.name
  key := ⟨.ofClass decl.name, (path.readQualifier decl.annotations decl.name.display).value⟩
  scope := (path.readScope decl.annotations decl.name.display).value
  origin := .constructor (path.readParameters decl.name constructor).value

theorem readTarget_of_injectedConstructors {decl : ClassDecl} {constructor : MethodDecl}
    (h : injectedConstructors decl = [constructor]) :
    ∃ target, (path.readTarget decl).value.2 = some target ∧ target.name = decl.name ∧
      target.constructorInjectees = (path.readParameters decl.name constructor).value := by
  have hconstructor : constructor.isConstructor := by
    have hmem : constructor ∈ injectedConstructors decl := h ▸ List.mem_cons_self ..
    exact (List.mem_filter.1 (List.mem_filter.1 hmem).1).2
  simp only [readTarget, readProvidable, readMethodPoint, h, Logged.value_bind, Logged.value_pure]
  exact ⟨_, rfl, rfl, if_pos hconstructor⟩

theorem name_of_readTarget {decl : ClassDecl} {target : InjectionTarget}
    (h : (path.readTarget decl).value.2 = some target) : target.name = decl.name := by
  simp only [readTarget, readProvidable, Logged.value_bind, Logged.value_pure] at h
  split at h
  · cases h
  · cases h
    rfl
  · cases h

theorem injectable_readTargets (path : ClassPath) : path.readTargets.value.injectable =
    path.decls.filterMap fun decl => (path.readTarget decl).value.1 := by
  simp only [readTargets, Logged.value_bind, Logged.value_mapM, Logged.value_pure,
    List.filterMap_map, Function.comp_def]

theorem providable_readTargets (path : ClassPath) : path.readTargets.value.providable =
    path.decls.filterMap fun decl => (path.readTarget decl).value.2 := by
  simp only [readTargets, Logged.value_bind, Logged.value_mapM, Logged.value_pure,
    List.filterMap_map, Function.comp_def]

theorem exists_providable {decl : ClassDecl} (hdecl : decl ∈ path.decls) {constructor : MethodDecl}
    (h : injectedConstructors decl = [constructor]) :
    ∃ target, path.readTargets.value.providable.find? (fun target => target.name = decl.name) =
        some target ∧ target.name = decl.name ∧
      target.constructorInjectees = (path.readParameters decl.name constructor).value := by
  obtain ⟨target, htarget, hname, hinjectees⟩ := path.readTarget_of_injectedConstructors h
  refine ⟨target, ?_, hname, hinjectees⟩
  have hnodup : (path.readTargets.value.providable.map InjectionTarget.name).Nodup := by
    rw [providable_readTargets]
    exact path.nodup_decls.sublist (map_filterMap_sublist (fun _ _ => name_of_readTarget) _)
  have hmem : target ∈ path.readTargets.value.providable := by
    rw [providable_readTargets]
    exact List.mem_filterMap.2 ⟨decl, hdecl, htarget⟩
  rw [← List.head?_filter, ← hname, filter_eq_singleton hnodup hmem]
  rfl

theorem constructorPoint_mem_pointsOf {decl : ClassDecl} (hdecl : decl ∈ path.decls)
    {constructor : MethodDecl} (h : injectedConstructors decl = [constructor]) {host : ClassDecl}
    (hhost : host.name ∈ path.hosts decl.name) :
    path.constructorPoint decl constructor ∈ (path.pointsOf host).value := by
  obtain ⟨target, htarget, hname, hinjectees⟩ := exists_providable hdecl h
  have hprovided : decl.name ∈ path.providedNames :=
    List.mem_map.2 ⟨target, List.mem_of_find?_eq_some htarget, hname⟩
  simp only [pointsOf, readProvisionPoints, Logged.value_bind, Logged.value_mapM, Logged.value_pure]
  refine List.mem_append_left _ (List.mem_append_left _ (List.mem_filterMap.2 ⟨_, List.mem_map.2
    ⟨decl.name, mem_hostedBy_hosted hprovided hhost, rfl⟩, ?_⟩))
  simp only [readConstructorPoint, htarget, find?_of_mem_decls hdecl, Logged.value_bind,
    Logged.value_pure, hinjectees]
  rfl

/-! ## The whole graph -/

theorem Portrays.named_factories (h : path.Portrays project marked book configured graph) :
    graph.factories.Named Factory.name := by
  intro name factory hfactory
  have hentry := Table.mem_entries_of_find? hfactory
  rw [h.factories] at hentry
  obtain ⟨_, -, heq⟩ := List.mem_map.1 hentry
  cases heq
  rfl

theorem Portrays.named_marked (h : path.Portrays project marked book configured graph) :
    marked.Named := by
  intro name contract hcontract
  refine h.contracts_named name contract (Table.find?_eq_some_iff.2 ?_)
  exact h.marked_extended.subset (Table.mem_entries_of_find? hcontract)

theorem Portrays.mem_factories_names (h : path.Portrays project marked book configured graph)
    {decl : ClassDecl} (hdecl : decl ∈ path.decls) (hmark : decl.isAnnotated Vocabulary.factory) :
    decl.name ∈ graph.factories.names := by
  obtain ⟨factory, hfactory⟩ :=
    Option.isSome_iff_exists.1 ((h.factories_read decl hdecl).trans hmark)
  have hmem : factory ∈ path.factories := List.mem_filterMap.2 ⟨decl, hdecl, hfactory⟩
  rw [Arena.names, Table.keys, h.factories, List.map_map, ← name_of_factoryOf? hfactory]
  exact List.mem_map.2 ⟨factory, hmem, rfl⟩

/-- The graph has all that the classes of the path declare of their containers. -/
structure KeepsDeclarations (path : ClassPath) (graph : ObjectGraph) : Prop where
  importers : ∀ decl ∈ path.decls, decl.isAnnotated Vocabulary.moduleMark →
    Declared graph (annotationList? decl.annotations Vocabulary.importedBy) fun module =>
      ∃ id ∈ module.importedModules, graph.modules.nameOf? id = some decl.name
  constructors : ∀ decl ∈ path.decls, ∀ constructor, injectedConstructors decl = [constructor] →
    Declared graph (annotationList? decl.annotations Vocabulary.providedBy) fun module =>
      path.constructorPoint decl constructor ∈ module.provisionPoints
  factories : ∀ decl ∈ path.decls, decl.isAnnotated Vocabulary.factory →
    Declared graph (annotationList? decl.annotations Vocabulary.providedBy) fun module =>
      ∃ id ∈ module.factories, graph.factories.nameOf? id = some decl.name
  contracts : ∀ decl ∈ path.decls, decl.isAnnotated Vocabulary.contract →
    Declared graph (annotationList? decl.annotations Vocabulary.providedBy) fun module =>
      ∃ id ∈ module.contracts, graph.contracts.nameOf? id = some decl.name

theorem Portrays.keepsDeclarations (h : path.Portrays project marked book configured graph)
    (hfaultless : path.Faultless) : path.KeepsDeclarations graph := by
  have hhosted {decl : ClassDecl} (hdecl : decl ∈ path.decls)
      (hname : decl.name ∈ path.providedNames ∨ decl.name ∈ path.factories.map Factory.name ∨
        decl.name ∈ path.contractDecls.map ClassDecl.name) :=
    listFaults_of_hostToll hdecl (hfaultless.hosts decl.name hname)
  -- Each kind of declaration is a list of containers of which none is rejected.
  constructor
  case importers =>
    intro decl hdecl hmark
    have hmodule : decl ∈ path.moduleDecls := List.mem_filter.2 ⟨hdecl, hmark⟩
    refine h.declared hfaultless (hfaultless.importers decl hmodule)
      fun module hcomplete hlisted => ?_
    exact hcomplete.imports _ (mem_hostedBy_importedBy hmodule hlisted)
  case constructors =>
    intro decl hdecl constructor hconstructor
    obtain ⟨target, htarget, hname, -⟩ := exists_providable hdecl hconstructor
    have hprovided : decl.name ∈ path.providedNames :=
      List.mem_map.2 ⟨target, List.mem_of_find?_eq_some htarget, hname⟩
    refine h.declared hfaultless (hhosted hdecl (.inl hprovided)) fun module hcomplete hlisted => ?_
    obtain ⟨host, hhost, hpoints⟩ := hcomplete.points
    rw [hpoints]
    rw [← hosts_of_mem_decls hdecl, ← hhost] at hlisted
    exact constructorPoint_mem_pointsOf hdecl hconstructor hlisted
  case factories =>
    intro decl hdecl hmark
    have hstored := h.mem_factories_names hdecl hmark
    have hfactory : decl.name ∈ path.factories.map Factory.name := by
      rw [Arena.names, Table.keys, h.factories, List.map_map] at hstored
      exact hstored
    refine h.declared hfaultless (hhosted hdecl (.inr (.inl hfactory)))
      fun module hcomplete hlisted => ?_
    rw [← hosts_of_mem_decls hdecl] at hlisted
    obtain ⟨id, hid, hname⟩ := exists_mem_hostedBy_hostedIds h.named_factories hstored hlisted
    exact ⟨id, hcomplete.factories id hid, hname⟩
  case contracts =>
    intro decl hdecl hmark
    have hcontract : decl.name ∈ path.contractDecls.map ClassDecl.name :=
      List.mem_map_of_mem (List.mem_filter.2 ⟨hdecl, hmark⟩)
    refine h.declared hfaultless (hhosted hdecl (.inr (.inr hcontract)))
      fun module hcomplete hlisted => ?_
    rw [← hosts_of_mem_decls hdecl] at hlisted
    obtain ⟨id, hid, hname⟩ := exists_mem_hostedBy_hostedIds h.named_marked
      (h.marked_names.mem_iff.2 hcontract) hlisted
    refine ⟨id, hcomplete.contracts id hid, ?_⟩
    rw [h.contracts]
    exact h.marked_extended.nameOf? hname

end

/-- Where a path is read without a fault, nothing is lost of what its classes declare of their
containers. -/
theorem keepsDeclarations_readGraph {graph : ObjectGraph}
    (h : (path.readGraph project).result = .ok graph)
    (hquiet : faults (path.readGraph project).events = []) : path.KeepsDeclarations graph := by
  obtain ⟨marked, book, configured, hportrays, hcount⟩ := portrays_of_readGraph h
  rw [Work.faultCount, hquiet] at hcount
  exact hportrays.keepsDeclarations (faultless_of_graphToll (Nat.le_zero.1 hcount))

end ClassPath

/-! ## A workshop -/

namespace Workshop

def mark (type : ClassName) : Annotation :=
  .set (.ofType type) "value" (.array [.type (.object ⟨"app/Workshop"⟩)])

def component : ClassDecl :=
  { ClassDecl.ofClass ⟨"app/Workshop"⟩ with annotations := [.ofType Vocabulary.component] }

def module : ClassDecl :=
  { ClassDecl.ofClass ⟨"app/Tools"⟩ with
    annotations := [.ofType Vocabulary.moduleMark, mark Vocabulary.importedBy] }

def service : ClassDecl :=
  { ClassDecl.ofClass ⟨"app/Bench"⟩ with
    annotations := [mark Vocabulary.providedBy]
    methods := [{ MethodDecl.emptyConstructor with annotations := [.ofType Vocabulary.inject] }] }

def factory : ClassDecl :=
  { ClassDecl.ofInterface ⟨"app/Maker"⟩ with
    annotations := [.ofType Vocabulary.factory, mark Vocabulary.providedBy] }

def contract : ClassDecl :=
  { ClassDecl.ofInterface ⟨"app/Catalogue"⟩ with
    annotations := [.ofType Vocabulary.contract, mark Vocabulary.providedBy] }

def path : ClassPath :=
  [component, module, service, factory, contract].foldl ClassPath.addInput ∅

end Workshop

namespace ClassPath

def hostedCounts (graph : ObjectGraph) : List (ClassName × List Nat) :=
  graph.modules.items.map fun module => (module.name,
    [module.imports.length, module.provisionPoints.length, module.factories.length,
      module.contracts.length])

set_option maxRecDepth 100000 in
theorem keepsDeclarations_readGraph_workshop :
    ∃ graph, (Workshop.path.readGraph "main").result = .ok graph ∧
      faults (Workshop.path.readGraph "main").events = [] ∧
      hostedCounts graph = [(⟨"app/Workshop"⟩, [1, 1, 1, 1]), (⟨"app/Tools"⟩, [0, 0, 0, 0])] ∧
      Workshop.path.KeepsDeclarations graph := by
  have hcounts : (Workshop.path.readGraph "main").result.map hostedCounts =
      .ok [(⟨"app/Workshop"⟩, [1, 1, 1, 1]), (⟨"app/Tools"⟩, [0, 0, 0, 0])] := by
    decide +kernel
  have hquiet : faults (Workshop.path.readGraph "main").events = [] := by decide +kernel
  obtain ⟨graph, hgraph, hmodules⟩ := exists_ok_of_map_eq_ok hcounts
  exact ⟨graph, hgraph, hquiet, hmodules, keepsDeclarations_readGraph hgraph hquiet⟩

end ClassPath

end InjectionCompiler
