import InjectionCompiler.Proofs.Portrait
import InjectionCompiler.Proofs.Wiring

/-!
# The closure of the declared imports

The modules of a graph are the roots and all that these import, directly or through other modules.
Every import that is declared is linked, in the order of the declarations, and the effective modules
of a container are those that its declared imports lead to.
-/

namespace InjectionCompiler

/-- The linked import is the one that is declared, and refers to the entity of the declared name. -/
inductive ObjectGraph.Links (graph : ObjectGraph) : NamedImport → Import → Prop where
  | module {name : ClassName} {target : Id .module} (site : ImportSite) (wrapped : Bool)
      (hname : graph.modules.nameOf? target = some name) :
      Links graph (.module name site wrapped) (.module target site)
  | contract {name : ClassName} {target : Id .contract} (site : ImportSite) (wrapped : Bool)
      (hname : graph.contracts.nameOf? target = some name) :
      Links graph (.contract name site wrapped) (.contract target site wrapped)

namespace ClassPath

section

variable (path : ClassPath) (accepted : ClassDecl → List NamedImport)

/-- An accepted import of the class `container` names the module `imported`. -/
def ImportsModule (container imported : ClassName) : Prop :=
  ∃ decl, path.find? container = some decl ∧
    ∃ site wrapped, .module imported site wrapped ∈ accepted decl

/-- The least set that holds the roots and is closed under accepted imports. -/
inductive InClosure : ClassName → Prop where
  | root {name : ClassName} (h : name ∈ path.rootNames) : InClosure name
  | imported {container name : ClassName} (h : InClosure container)
      (himport : path.ImportsModule accepted container name) : InClosure name

/-- The graph is what the accepted imports of the classes make it. -/
structure ImportClosed (graph : ObjectGraph) : Prop where
  /-- Each module is stored once, under its own name. -/
  nodup_names : graph.modules.names.Nodup
  items_named : graph.modules.items.map Module.name = graph.modules.names
  mem_names_iff : ∀ name, name ∈ graph.modules.names ↔ path.InClosure accepted name
  linked : ∀ module ∈ graph.modules.items, ∃ decl, path.find? module.name = some decl ∧
    List.Forall₂ graph.Links (accepted decl) module.imports
  nodup_effective : ∀ container ∈ graph.containers,
    ((graph.effectiveModules container.module).map Module.name).Nodup
  mem_effective_iff : ∀ container ∈ graph.containers, ∀ name,
    name ∈ (graph.effectiveModules container.module).map Module.name ↔
      Relation.ReflTransGen (path.ImportsModule accepted) container.name name

end

variable {path : ClassPath} {project : String}

theorem mem_rootNames_of_importsModule {container imported : ClassName}
    (h : path.ImportsModule path.declaredImports container imported) :
    imported ∈ path.rootNames := by
  obtain ⟨decl, -, site, wrapped, himport⟩ := h
  obtain ⟨module, hmodule, rfl⟩ := mem_moduleDecls_of_mem_declaredImports himport
  exact List.mem_append_right _ (List.mem_map_of_mem hmodule)

theorem inClosure_iff_mem_rootNames {name : ClassName} :
    path.InClosure path.declaredImports name ↔ name ∈ path.rootNames := by
  constructor
  · intro h
    cases h with
    | root hroot => exact hroot
    | imported _ himport => exact mem_rootNames_of_importsModule himport
  · exact .root

/-! ## Linking -/

theorem forall₂_filterMap_right {α β γ : Type} {Related : α → β → Prop} {Wanted : α → γ → Prop}
    {change : β → Option γ} {xs : List α} {ys : List β} (h : List.Forall₂ Related xs ys)
    (hchange : ∀ x ∈ xs, ∀ y, Related x y → ∃ z, change y = some z ∧ Wanted x z) :
    List.Forall₂ Wanted xs (ys.filterMap change) := by
  induction h with
  | nil => exact .nil
  | cons hhead _ ih =>
      obtain ⟨z, hz, hwanted⟩ := hchange _ (List.mem_cons_self ..) _ hhead
      rw [List.filterMap_cons_some hz]
      exact .cons hwanted (ih fun x hx => hchange x (List.mem_cons_of_mem _ hx))

section

variable {marked book : ContractBook} {configured : List (ClassName × Id .contract)}
  {graph : ObjectGraph}

theorem Portrays.names_eq (h : path.Portrays project marked book configured graph) :
    graph.modules.names = SearchSpace.unseen [] path.rootNames := by
  obtain ⟨known, hmodules, hkeys, -⟩ := h.modules
  rw [hmodules, ← hkeys]
  exact Table.keys_mapValues _ _

theorem Portrays.mem_names_iff (h : path.Portrays project marked book configured graph)
    {name : ClassName} : name ∈ graph.modules.names ↔ name ∈ path.rootNames := by
  rw [h.names_eq, SearchSpace.mem_unseen]
  exact and_iff_left List.not_mem_nil

theorem links_linkImport {known : UnlinkedModules} (hmodules : graph.modules = linkModules known)
    (hcontracts : graph.contracts = book.contracts) {declared : NamedImport}
    (hmodule : ∀ name site wrapped, declared = .module name site wrapped → name ∈ known.keys)
    {read : DeclaredImport} (h : book.Denotes declared read) :
    ∃ linked, linkImport known read = some linked ∧ graph.Links declared linked := by
  cases h with
  | module name site wrapped =>
      obtain ⟨place, hplace⟩ : ∃ place, known.position? name = some place :=
        Option.isSome_iff_exists.1 (List.isSome_idxOf?.2 (hmodule name site wrapped rfl))
      have hname : graph.modules.find? name = some ⟨place⟩ := by
        rw [hmodules, linkModules, Arena.find?, Table.position?, Table.keys_mapValues]
        exact congrArg _ hplace
      refine ⟨.module ⟨place⟩ site, ?_, .module site wrapped (Arena.nameOf?_of_find? hname)⟩
      simp only [linkImport, hplace, Option.map_some]
  | contract site wrapped hname =>
      exact ⟨_, rfl, .contract site wrapped (by rw [hcontracts]; exact hname)⟩

theorem Portrays.exists_decl (h : path.Portrays project marked book configured graph)
    {name : ClassName} {module : Module} (hmodule : graph.modules.named? name = some module) :
    ∃ decl, path.find? name = some decl ∧
      List.Forall₂ graph.Links (path.declaredImports decl) module.imports ∧
      { module with imports := [] } = path.moduleOf
        (path.sourcesOf project graph.factories marked.contracts configured) book decl := by
  obtain ⟨known, hmodules, hkeys, hknown⟩ := h.modules
  rw [hmodules, linkModules, Arena.named?, Table.find?_mapValues, Option.map_eq_some_iff] at hmodule
  obtain ⟨read, hread, rfl⟩ := hmodule
  obtain ⟨decl, hdecl, hmodule, hdenotes⟩ := hknown name read hread
  refine ⟨decl, hdecl, ?_, ?_⟩
  · refine forall₂_filterMap_right hdenotes fun declared hdeclared read hread => ?_
    refine links_linkImport hmodules h.contracts (fun imported site wrapped heq => ?_) hread
    rw [hkeys, ← h.names_eq, h.mem_names_iff]
    exact mem_rootNames_of_importsModule ⟨decl, hdecl, site, wrapped, heq ▸ hdeclared⟩
  · have hunlinked : read.1.imports = [] := by rw [hmodule, imports_moduleOf]
    rw [← hmodule]
    obtain ⟨⟨_, _, _, _, _, _⟩, _⟩ := read
    cases hunlinked
    rfl

theorem name_moduleOf (sources : ModuleSources) (book : ContractBook) (decl : ClassDecl) :
    (path.moduleOf sources book decl).name = decl.name := by
  unfold moduleOf
  split <;> rfl

theorem Portrays.named (h : path.Portrays project marked book configured graph) :
    graph.modules.Named Module.name := by
  intro name module hmodule
  obtain ⟨decl, hdecl, -, hread⟩ := h.exists_decl hmodule
  have hname : module.name = decl.name := by
    rw [← name_moduleOf (path.sourcesOf project graph.factories marked.contracts configured) book,
      ← hread]
  rw [hname, name_of_find? hdecl]

/-! ## Effective modules -/

theorem Portrays.mem_importedModules_iff
    (h : path.Portrays project marked book configured graph) {target : Id .module}
    {name imported : ClassName} (htarget : graph.modules.nameOf? target = some name) :
    (∃ other ∈ graph.importedModules target, graph.modules.nameOf? other = some imported) ↔
      path.ImportsModule path.declaredImports name imported := by
  obtain ⟨module, hmodule, hnamed⟩ := Arena.exists_get?_of_nameOf? htarget
  obtain ⟨decl, hdecl, hlinks, -⟩ := h.exists_decl hnamed
  have himported : graph.importedModules target = module.importedModules := by
    rw [ObjectGraph.importedModules, hmodule]
  rw [himported]
  constructor
  · rintro ⟨other, hother, hname⟩
    obtain ⟨linked, hlinked, hmodule⟩ := List.mem_filterMap.1 hother
    obtain ⟨declared, hdeclared, hlink⟩ := exists_left_of_forall₂ hlinks hlinked
    cases hlink with
    | module site wrapped hdeclaredName =>
        cases hmodule
        rw [hname] at hdeclaredName
        cases hdeclaredName
        exact ⟨decl, hdecl, site, wrapped, hdeclared⟩
    | contract => cases hmodule
  · rintro ⟨_, hsame, site, wrapped, hdeclared⟩
    rw [hdecl] at hsame
    cases hsame
    obtain ⟨linked, hlinked, hlink⟩ := exists_right_of_forall₂ hlinks hdeclared
    cases hlink with
    | module _ _ hname => exact ⟨_, List.mem_filterMap.2 ⟨_, hlinked, rfl⟩, hname⟩

theorem exists_nameOf?_of_mem_importedModules {id imported : Id .module}
    (h : imported ∈ graph.importedModules id) : ∃ name, graph.modules.nameOf? id = some name := by
  unfold ObjectGraph.importedModules at h
  split at h
  · next module hmodule =>
      obtain ⟨name, hname, -⟩ := Arena.named?_of_get? hmodule
      exact ⟨name, hname⟩
  · cases h

theorem Portrays.leads_iff (h : path.Portrays project marked book configured graph)
    {root : Id .module} {name reached : ClassName}
    (hroot : graph.modules.nameOf? root = some name) :
    (∃ target, graph.importSpace.Leads root target ∧
      graph.modules.nameOf? target = some reached) ↔
      Relation.ReflTransGen (path.ImportsModule path.declaredImports) name reached := by
  constructor
  · rintro ⟨target, hleads, htarget⟩
    induction hleads generalizing reached with
    | refl =>
        rw [hroot] at htarget
        cases htarget
        exact .refl
    | step _ hnext ih =>
        obtain ⟨middle, hmiddle⟩ := exists_nameOf?_of_mem_importedModules hnext
        exact (ih hmiddle).tail ((h.mem_importedModules_iff hmiddle).1 ⟨_, hnext, htarget⟩)
  · intro hway
    induction hway with
    | refl => exact ⟨root, .refl root, hroot⟩
    | tail _ hstep ih =>
        obtain ⟨middle, hleads, hmiddle⟩ := ih
        obtain ⟨target, hnext, htarget⟩ := (h.mem_importedModules_iff hmiddle).2 hstep
        exact ⟨target, hleads.step hnext, htarget⟩

theorem Portrays.nameOf?_of_container (h : path.Portrays project marked book configured graph)
    {container : Container} (hcontainer : container ∈ graph.containers) :
    graph.modules.nameOf? container.module = some container.name := by
  rcases List.mem_append.1 hcontainer with hmem | hmem
  · obtain ⟨component, hcomponent, rfl⟩ := List.mem_map.1 hmem
    rw [h.components] at hcomponent
    obtain ⟨name, -, hfound⟩ := List.mem_filterMap.1 hcomponent
    obtain ⟨id, hid, rfl⟩ := Option.map_eq_some_iff.1 hfound
    exact Arena.nameOf?_of_find? hid
  · obtain ⟨configuration, hconfiguration, rfl⟩ := List.mem_map.1 hmem
    rw [h.configurations] at hconfiguration
    obtain ⟨⟨name, contract⟩, -, hfound⟩ := List.mem_filterMap.1 hconfiguration
    obtain ⟨id, hid, rfl⟩ := Option.map_eq_some_iff.1 hfound
    exact Arena.nameOf?_of_find? hid

theorem name_of_nameOf? (hnamed : graph.modules.Named Module.name) {id : Id .module}
    {module : Module} (hmodule : graph.modules.get? id = some module) {name : ClassName} :
    graph.modules.nameOf? id = some name ↔ module.name = name := by
  obtain ⟨other, hother, hfound⟩ := Arena.named?_of_get? hmodule
  change graph.modules.nameOf? id = some other at hother
  rw [hother, hnamed _ _ hfound, Option.some.injEq]

theorem Portrays.mem_effective_iff (h : path.Portrays project marked book configured graph)
    {container : Container} (hcontainer : container ∈ graph.containers) {name : ClassName} :
    name ∈ (graph.effectiveModules container.module).map Module.name ↔
      Relation.ReflTransGen (path.ImportsModule path.declaredImports) container.name name := by
  rw [← h.leads_iff (h.nameOf?_of_container hcontainer), List.mem_map]
  simp only [ObjectGraph.effectiveModules, ObjectGraph.effectiveIds, List.mem_filterMap,
    SearchSpace.mem_reach_iff]
  constructor
  · rintro ⟨module, ⟨target, hleads, hmodule⟩, hname⟩
    exact ⟨target, hleads, (name_of_nameOf? h.named hmodule).2 hname⟩
  · rintro ⟨target, hleads, hname⟩
    obtain ⟨module, hmodule, -⟩ := Arena.exists_get?_of_nameOf? hname
    exact ⟨module, ⟨target, hleads, hmodule⟩, (name_of_nameOf? h.named hmodule).1 hname⟩

theorem nodup_names_effectiveModules (hnamed : graph.modules.Named Module.name)
    (root : Id .module) : ((graph.effectiveModules root).map Module.name).Nodup := by
  have hids := Wiring.nodup_effectiveEntries graph root
  rw [← Wiring.map_snd_effectiveEntries, List.map_map]
  refine List.Nodup.map_on (fun first hfirst second hsecond hname => ?_) hids.of_map
  obtain ⟨-, hone⟩ := Wiring.mem_effectiveEntries.1 hfirst
  obtain ⟨-, htwo⟩ := Wiring.mem_effectiveEntries.1 hsecond
  exact List.inj_on_of_nodup_map hids hfirst hsecond (hnamed.id_unique hone htwo hname)

/-- The modules of a graph that was read are exactly the closure of the roots
under declared imports, every declared import is linked to the entity it names, and the effective
modules of a container are the closure of its class. -/
theorem importClosed_readGraph (h : (path.readGraph project).result = .ok graph) :
    path.ImportClosed path.declaredImports graph := by
  obtain ⟨marked, book, configured, hportrays, -⟩ := portrays_of_readGraph h
  constructor
  case nodup_names => exact graph.modules.table.distinct
  case items_named => exact hportrays.named.map_items
  case mem_names_iff =>
    exact fun name => hportrays.mem_names_iff.trans inClosure_iff_mem_rootNames.symm
  case linked =>
    intro module hmodule
    obtain ⟨id, hid⟩ := Arena.exists_get?_of_mem hmodule
    obtain ⟨name, -, hnamed⟩ := Arena.named?_of_get? hid
    obtain ⟨decl, hdecl, hlinks, -⟩ := hportrays.exists_decl hnamed
    exact ⟨decl, hportrays.named _ _ hnamed ▸ hdecl, hlinks⟩
  case nodup_effective =>
    exact fun container _ => nodup_names_effectiveModules hportrays.named container.module
  case mem_effective_iff =>
    exact fun container hcontainer name => hportrays.mem_effective_iff hcontainer

end

/-! ## A wrapped module -/

/-- The declared imports that pass every check. -/
def flawlessImports (path : ClassPath) (decl : ClassDecl) : List NamedImport :=
  (path.declaredImports decl).filter fun declared => !declared.isWrappedModule

end ClassPath

namespace Wrapped

def field : FieldDecl where
  name := "module"
  type := .applied Vocabulary.lazy [.ofClass ⟨"app/Module"⟩]
  isStatic := false
  annotations := [.ofType Vocabulary.importMark]

def component : ClassDecl :=
  { ClassDecl.ofClass ⟨"app/App"⟩ with
    annotations := [.ofType Vocabulary.component]
    fields := [field] }

def module : ClassDecl :=
  { ClassDecl.ofClass ⟨"app/Module"⟩ with annotations := [.ofType Vocabulary.moduleMark] }

def path : ClassPath := (ClassPath.addInput ∅ component).addInput module

end Wrapped

namespace ClassPath

set_option maxRecDepth 100000 in
theorem importClosed_readGraph_wrapped :
    ∃ graph, (Wrapped.path.readGraph "main").result = .ok graph ∧
      graph.modules.names = [⟨"app/App"⟩, ⟨"app/Module"⟩] ∧
      Wrapped.path.ImportClosed Wrapped.path.declaredImports graph := by
  have hnames : (Wrapped.path.readGraph "main").result.map (fun graph => graph.modules.names) =
      .ok [⟨"app/App"⟩, ⟨"app/Module"⟩] := by
    decide +kernel
  obtain ⟨graph, hgraph, hmodules⟩ := exists_ok_of_map_eq_ok hnames
  exact ⟨graph, hgraph, hmodules, importClosed_readGraph hgraph⟩

set_option maxRecDepth 100000 in
/-- The import of a wrapped module is linked, although it does not pass every check. -/
theorem wrapped_module_linked :
    ∃ graph, (Wrapped.path.readGraph "main").result = .ok graph ∧
      (Wrapped.path.readGraph "main").faultCount = 1 ∧
      ¬ Wrapped.path.ImportClosed Wrapped.path.flawlessImports graph := by
  have hcounts : (Wrapped.path.readGraph "main").result.map (fun graph =>
      graph.modules.items.map fun module => module.imports.length) = .ok [1, 0] := by
    decide +kernel
  have hnone : Wrapped.path.decls.all fun decl =>
      (Wrapped.path.flawlessImports decl).isEmpty := by
    decide +kernel
  obtain ⟨graph, hgraph, himports⟩ := exists_ok_of_map_eq_ok hcounts
  refine ⟨graph, hgraph, by decide +kernel, fun hclosed => ?_⟩
  obtain ⟨module, hmodule, hlength⟩ : ∃ module ∈ graph.modules.items, module.imports.length = 1 :=
    List.mem_map.1 (himports ▸ List.mem_cons_self ..)
  obtain ⟨decl, hdecl, hlinked⟩ := hclosed.linked module hmodule
  have hempty := List.all_eq_true.1 hnone decl (mem_decls_of_find? hdecl)
  rw [List.isEmpty_iff.1 hempty] at hlinked
  rw [List.forall₂_nil_left_iff.1 hlinked] at hlength
  cases hlength

end ClassPath

end InjectionCompiler
