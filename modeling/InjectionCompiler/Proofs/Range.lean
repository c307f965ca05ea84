import InjectionCompiler.Proofs.Discovery

/-!
# Ids in range

Whatever a graph hosts or imports by its id is in the graph, and the classes that implement its
factories and contracts are named after them.
-/

namespace InjectionCompiler

/-! ## Ids of an arena -/

namespace Arena

variable {entity : Entity} {α : Type} {arena : Arena entity α}

theorem length_keys (arena : Arena entity α) : arena.table.keys.length = arena.size := by
  rw [Table.keys, List.length_map, size, Table.size]

theorem exists_get?_iff {id : Id entity} :
    (∃ item, arena.get? id = some item) ↔ id.index < arena.size := by
  have hlength : arena.table.values.length = arena.size := by
    rw [Table.values, List.length_map, size, Table.size]
  rw [← hlength]
  constructor
  · rintro ⟨item, hitem⟩
    exact (List.getElem?_eq_some_iff.1 hitem).1
  · exact fun hindex => ⟨_, List.getElem?_eq_getElem hindex⟩

theorem nameOf?_of_find? {name : ClassName} {id : Id entity} (h : arena.find? name = some id) :
    arena.nameOf? id = some name := by
  obtain ⟨index, hindex, rfl⟩ := Option.map_eq_some_iff.1 h
  obtain ⟨hlt, heq, -⟩ := List.idxOf?_eq_some_iff.1 hindex
  exact List.getElem?_eq_some_iff.2 ⟨hlt, heq⟩

theorem not_mem_names_of_find? {name : ClassName} (h : arena.find? name = none) :
    name ∉ arena.names := by
  intro hmem
  have hsome : (arena.table.position? name).isSome := List.isSome_idxOf?.2 hmem
  rw [Option.map_eq_none_iff.1 h] at hsome
  cases hsome

theorem insert_of_find?_eq_none {name : ClassName} (h : arena.find? name = none) (item : α) :
    (arena.insert name item).2.table.entries = arena.table.entries ++ [(name, item)] :=
  Table.entries_insert_of_not_mem (not_mem_names_of_find? h)

theorem index_lt_of_find? {name : ClassName} {id : Id entity} (h : arena.find? name = some id) :
    id.index < arena.size := by
  obtain ⟨index, hindex, rfl⟩ := Option.map_eq_some_iff.1 h
  rw [← length_keys]
  exact (List.idxOf?_eq_some_iff.1 hindex).1

theorem size_le_insert (arena : Arena entity α) (name : ClassName) (item : α) :
    arena.size ≤ (arena.insert name item).2.size := by
  rw [← length_keys, ← length_keys, insert, Table.keys_insert]
  split
  · exact Nat.le_refl _
  · rw [List.length_append]
    exact Nat.le_add_right ..

theorem find?_insert_self (arena : Arena entity α) (name : ClassName) (item : α) :
    (arena.insert name item).2.find? name = some (arena.insert name item).1 := by
  have hmem : name ∈ (arena.table.insert name item).keys :=
    (Table.mem_keys_insert ..).2 (.inl rfl)
  obtain ⟨index, hindex⟩ : ∃ index, (arena.table.insert name item).position? name = some index :=
    Option.isSome_iff_exists.1 (List.isSome_idxOf?.2 hmem)
  simp only [find?, insert, hindex, Option.map_some, Option.getD_some]

theorem index_insert_lt (arena : Arena entity α) (name : ClassName) (item : α) :
    (arena.insert name item).1.index < (arena.insert name item).2.size :=
  index_lt_of_find? (arena.find?_insert_self name item)

theorem get?_modify (arena : Arena entity α) (id other : Id entity) (change : α → α) :
    (arena.modify id change).get? other =
      (arena.get? other).map fun item => if id.index = other.index then change item else item := by
  rw [get?, modify, Table.values_modifyAt, List.getElem?_modify]
  rfl

theorem map_fst_entries (arena : Arena entity α) : arena.entries.map Prod.fst = arena.ids := by
  refine List.map_fst_zip ?_
  simp [ids, items, size, Table.size, Table.values]

theorem get?_of_mem_entries {id : Id entity} {item : α} (h : (id, item) ∈ arena.entries) :
    arena.get? id = some item := by
  obtain ⟨index, hindex⟩ := List.getElem?_of_mem h
  rw [entries, List.getElem?_zip_eq_some] at hindex
  obtain ⟨hid, hitem⟩ := hindex
  rw [ids, List.getElem?_map, Option.map_eq_some_iff] at hid
  obtain ⟨place, hplace, rfl⟩ := hid
  obtain ⟨hlt, rfl⟩ := List.getElem?_eq_some_iff.1 hplace
  rw [List.getElem_range]
  exact hitem

theorem mem_entries_of_get? {id : Id entity} {item : α} (h : arena.get? id = some item) :
    (id, item) ∈ arena.entries := by
  have hlt := exists_get?_iff.1 ⟨item, h⟩
  refine List.mem_of_getElem? (List.getElem?_zip_eq_some.2 ⟨?_, h⟩)
  rw [ids, List.getElem?_map, List.getElem?_range hlt]
  rfl

end Arena

/-! ## Contracts that were looked up -/

namespace ContractBook

/-- The id refers to a contract of the book. -/
def Holds (book : ContractBook) (id : Id .contract) : Prop :=
  id.index < book.contracts.size

/-- Every contract of the book is implemented by the class that is named after it. -/
def Implemented (project : String) (book : ContractBook) : Prop :=
  ∀ name contract, book.contracts.named? name = some contract →
    contract.implementation = contractImplementation contract.name project

/-- An import refers to a contract of the book, if to any. -/
def Imports (book : ContractBook) (declared : DeclaredImport) : Prop :=
  ∀ id site lazy, declared = .contract id site lazy → book.Holds id

def ImportsAny (book : ContractBook) (read : Option DeclaredImport) : Prop :=
  ∀ declared ∈ read, book.Imports declared

/-- The contracts that a module hosts and imports are in the book. -/
def HoldsModule (book : ContractBook) (read : Module × List DeclaredImport) : Prop :=
  (∀ id ∈ read.1.contracts, book.Holds id) ∧ ∀ declared ∈ read.2, book.Imports declared

end ContractBook

namespace ClassPath

variable {path : ClassPath} {project : String}

theorem keepsHolds_readContract (id : Id .contract) (name : ClassName) :
    Keeps (fun book => book.Holds id) (path.readContract project name) := by
  intro before found after hholds h
  rcases readContract_spec h with ⟨-, rfl⟩ | ⟨contract, -, -, hinsert, -⟩
  · exact hholds
  · have hsize := before.contracts.size_le_insert name contract
    rw [hinsert] at hsize
    exact Nat.lt_of_lt_of_le hholds hsize

theorem keepsImplemented_readContract (name : ClassName) :
    Keeps (ContractBook.Implemented project) (path.readContract project name) := by
  intro before id after himplemented h
  rcases readContract_spec h with ⟨-, rfl⟩ | ⟨contract, hname, himplementation, hinsert, -⟩
  · exact himplemented
  · have hinserted : after.contracts = (before.contracts.insert name contract).2 := by rw [hinsert]
    intro other held hheld
    rw [hinserted] at hheld
    simp only [Arena.insert, Arena.named?, Table.find?_insert] at hheld
    split at hheld
    · cases hheld
      rw [hname, himplementation]
    · exact himplemented other held hheld

theorem yieldsHolds_readContract (name : ClassName) :
    Yields ContractBook.Holds (path.readContract project name) := by
  intro before id after h
  rcases readContract_spec h with ⟨hfind, rfl⟩ | ⟨contract, -, -, hinsert, -⟩
  · exact Arena.index_lt_of_find? hfind
  · have hindex := before.contracts.index_insert_lt name contract
    rw [hinsert] at hindex
    exact hindex

/-! ## Imports -/

theorem importsAny_none (book : ContractBook) : book.ImportsAny none :=
  fun _ h => by cases h

theorem imports_module (book : ContractBook) (name : ClassName) (site : ImportSite) :
    book.Imports (.module name site) := by
  rintro _ _ _ ⟨⟩

theorem importsAny_module (book : ContractBook) (name : ClassName) (site : ImportSite) :
    book.ImportsAny (some (.module name site)) := by
  rintro _ ⟨⟩
  exact imports_module book name site

theorem yieldsImports_readImport (annotations : List Annotation) (declared : Signature)
    (element : String) (site : ImportSite) :
    Yields ContractBook.ImportsAny
      (path.readImport project annotations declared element site) := by
  unfold readImport
  refine .bind fun read => ?_
  dsimp only
  split
  · next name lazy =>
      split
      · intro before value after h
        obtain ⟨id, between, hid, h⟩ := ends_bind.1 h
        obtain ⟨rfl, rfl⟩ := ends_pure.1 h
        rintro _ ⟨⟩ _ _ _ ⟨⟩
        exact yieldsHolds_readContract name _ _ _ hid
      · split
        · refine .bind fun _ => ?_
          split
          · split
            · exact .bind fun _ => .pure importsAny_none
            · exact .pure fun book => importsAny_module book _ _
          · exact BookWork.yields_throw _
        · split
          · split
            · exact .bind fun _ => .pure importsAny_none
            · exact .pure fun book => importsAny_module book _ _
          · exact BookWork.yields_throw _
  · exact .pure importsAny_none

theorem yieldsImports_readMethodImport (owner : ClassName) (method : MethodDecl) :
    Yields ContractBook.ImportsAny (path.readMethodImport project owner method) := by
  unfold readMethodImport
  dsimp only
  split
  · exact .bind fun _ => .pure importsAny_none
  · split
    · exact .bind fun _ => .pure importsAny_none
    · exact .bind fun _ => yieldsImports_readImport _ _ _ _

theorem yieldsImports_readFieldImport (owner : ClassName) (field : FieldDecl) :
    Yields ContractBook.ImportsAny (path.readFieldImport project owner field) := by
  unfold readFieldImport
  exact .bind fun _ => yieldsImports_readImport _ _ _ _

theorem keeps_importsAny {α : Type} {work : BookWork α}
    (hkeeps : ∀ id, Keeps (fun book : ContractBook => book.Holds id) work)
    (read : Option DeclaredImport) : Keeps (fun book => book.ImportsAny read) work :=
  fun _ _ _ himports hends declared hdeclared id site lazy heq =>
    hkeeps id _ _ _ (himports declared hdeclared id site lazy heq) hends

theorem yieldsImports_readImports (sources : ModuleSources) (decl : ClassDecl) :
    Yields (fun book (imports : List DeclaredImport) => ∀ declared ∈ imports, book.Imports declared)
      (path.readImports sources decl) := by
  intro before imports after h
  have hmethod : ∀ method read, Keeps (fun book : ContractBook => book.ImportsAny read)
      (path.readMethodImport sources.project decl.name method) := fun method =>
    keeps_importsAny fun id => keeps_readMethodImport (keepsHolds_readContract id) decl.name method
  have hfield : ∀ field read, Keeps (fun book : ContractBook => book.ImportsAny read)
      (path.readFieldImport sources.project decl.name field) := fun field =>
    keeps_importsAny fun id => keeps_readFieldImport (keepsHolds_readContract id) decl.name field
  have himportee : ∀ importee read, Keeps (fun book : ContractBook => book.ImportsAny read)
      (liftM (readAnnotationImport decl.name importee) : BookWork DeclaredImport) :=
    fun importee read => BookWork.keeps_logged _
  unfold readImports at h
  simp only [ends_bind, ends_pure] at h
  obtain ⟨ofMethods, b, hmethods, ofFields, c, hfields, ofImportees, d, himportees, rfl, rfl⟩ := h
  have hofMethods : ∀ read ∈ ofMethods, b.ImportsAny read :=
    Yields.mapM (fun method _ => hmethod method)
      (fun method _ => yieldsImports_readMethodImport decl.name method) _ _ _ hmethods
  have hofFields : ∀ read ∈ ofFields, c.ImportsAny read :=
    Yields.mapM (fun field _ => hfield field)
      (fun field _ => yieldsImports_readFieldImport decl.name field) _ _ _ hfields
  have hofImportees : ∀ declared ∈ ofImportees, after.Imports declared :=
    Yields.mapM (fun _ _ _ => BookWork.keeps_logged _)
      (fun importee _ => BookWork.yields_logged fun book => imports_module book _ _) _ _ _
      himportees
  -- What a method or a field imports is followed through the steps after it.
  intro declared hdeclared
  rcases List.mem_append.1 hdeclared with hdeclared | hdeclared
  · rcases List.mem_append.1 hdeclared with hdeclared | hdeclared
    · obtain ⟨read, hread, heq⟩ := List.mem_filterMap.1 hdeclared
      have hc := Keeps.mapM (fun field _ => hfield field read) _ _ _ (hofMethods read hread) hfields
      exact Keeps.mapM (fun name _ => himportee name read) _ _ _ hc himportees declared heq
    · obtain ⟨read, hread, heq⟩ := List.mem_filterMap.1 hdeclared
      exact Keeps.mapM (fun name _ => himportee name read) _ _ _ (hofFields read hread) himportees
        declared heq
  · exact hofImportees declared hdeclared

/-! ## Modules -/

def SourcesHeld (sources : ModuleSources) (book : ContractBook) : Prop :=
  (∀ entry ∈ sources.hosting.contracts, book.Holds entry.2) ∧
    ∀ entry ∈ sources.configured, book.Holds entry.2

theorem mem_of_mem_hostedBy {α : Type} {declared : List (ClassName × α)} {container : ClassName}
    {item : α} (h : item ∈ hostedBy declared container) : (container, item) ∈ declared := by
  obtain ⟨⟨name, other⟩, hmem, rfl⟩ := List.mem_map.1 h
  obtain ⟨hentry, heq⟩ := List.mem_filter.1 hmem
  simp only [decide_eq_true_eq] at heq
  exact heq ▸ hentry

variable {sources : ModuleSources}

theorem readModule_holds {decl : ClassDecl} {before after : ContractBook}
    {read : Module × List DeclaredImport} (hsources : SourcesHeld sources before)
    (h : Ends (path.readModule sources decl) before read after) : after.HoldsModule read := by
  rcases readModule_cases h with ⟨-, rfl, -⟩ | ⟨-, himports, -, -, -, -, hcontracts⟩
  · exact ⟨fun _ h => absurd h List.not_mem_nil, fun _ h => absurd h List.not_mem_nil⟩
  · refine ⟨fun id hid => ?_, yieldsImports_readImports sources decl _ _ _ himports⟩
    refine keeps_readImports sources (keepsHolds_readContract id) decl _ _ _ ?_ himports
    rw [hcontracts] at hid
    rcases List.mem_append.1 hid with hid | hid
    · exact hsources.1 _ (mem_of_mem_hostedBy hid)
    · exact hsources.2 _ (mem_of_lookup (Option.mem_toList.1 hid))

theorem hosted_of_readModule {decl : ClassDecl} {before after : ContractBook}
    {read : Module × List DeclaredImport}
    (h : Ends (path.readModule sources decl) before read after)
    {id : Id .factory} (hid : id ∈ read.1.factories) :
    ∃ host, (host, id) ∈ sources.hosting.factories := by
  rcases readModule_cases h with ⟨-, rfl, -⟩ | ⟨-, -, -, -, -, hfactories, -⟩
  · exact absurd hid List.not_mem_nil
  · rw [hfactories] at hid
    exact ⟨_, mem_of_mem_hostedBy hid⟩

theorem readModulesFrom_holds {known modules : UnlinkedModules} {queue : List ClassName}
    {before after : ContractBook} (hsources : SourcesHeld sources before)
    (hknown : ∀ name read, known.find? name = some read → before.HoldsModule read)
    (h : Ends (path.readModulesFrom sources known queue) before modules after) :
    ∀ name read, modules.find? name = some read → after.HoldsModule read := by
  fun_induction path.readModulesFrom sources known queue generalizing before with
  | case1 =>
      obtain ⟨rfl, rfl⟩ := ends_pure.1 h
      exact hknown
  | case2 => exact absurd h BookWork.ends_throw
  | case3 known queue name rest hqueue decl hdecl ih =>
      obtain ⟨read, between, hread, hrest⟩ := ends_bind.1 h
      have hgrows : ∀ id, before.Holds id → between.Holds id := fun id hid =>
        keeps_readModule sources (keepsHolds_readContract id) decl _ _ _ hid hread
      refine ih read ?_ (fun other held hheld => ?_) hrest
      · exact ⟨fun entry hentry => hgrows _ (hsources.1 entry hentry),
          fun entry hentry => hgrows _ (hsources.2 entry hentry)⟩
      · rw [Table.find?_insert] at hheld
        split at hheld
        · cases hheld
          exact readModule_holds hsources hread
        · obtain ⟨hcontracts, himports⟩ := hknown other held hheld
          refine ⟨fun id hid => hgrows id (hcontracts id hid), ?_⟩
          exact fun declared hdeclared id site lazy heq =>
            hgrows id (himports declared hdeclared id site lazy heq)

theorem exists_read_of_linked {known : UnlinkedModules} {module : Module}
    (h : module ∈ (linkModules known).items) :
    ∃ name read, known.find? name = some read ∧ module.contracts = read.1.contracts ∧
      module.factories = read.1.factories ∧
      ∀ id site lazy,
        .contract id site lazy ∈ module.imports → .contract id site lazy ∈ read.2 := by
  obtain ⟨entry, hentry, rfl⟩ := List.mem_map.1 h
  obtain ⟨⟨name, read⟩, hread, rfl⟩ := List.mem_map.1 hentry
  refine ⟨name, read, Table.find?_eq_some_iff.2 hread, rfl, rfl, fun id site lazy himport => ?_⟩
  obtain ⟨declared, hdeclared, heq⟩ := List.mem_filterMap.1 himport
  cases declared with
  | module target place =>
      obtain ⟨place, -, heq⟩ := Option.map_eq_some_iff.1 heq
      cases heq
  | contract target place lazy =>
      cases heq
      exact hdeclared

theorem readModules_holds {roots : List ClassName} {before after : ContractBook}
    {modules : Arena .module Module} (hsources : SourcesHeld sources before)
    (h : Ends (path.readModules sources roots) before modules after) {module : Module}
    (hmodule : module ∈ modules.items) :
    (∀ id ∈ module.factories, ∃ host, (host, id) ∈ sources.hosting.factories) ∧
      (∀ id ∈ module.contracts, after.Holds id) ∧
      ∀ id site lazy, .contract id site lazy ∈ module.imports → after.Holds id := by
  simp only [readModules, ends_bind, ends_pure] at h
  obtain ⟨known, _, hread, rfl, rfl⟩ := h
  obtain ⟨name, read, hfound, hcontracts, hfactories, himports⟩ := exists_read_of_linked hmodule
  obtain ⟨decl, _, _, -, hends⟩ :=
    wasRead_of_ends (fun name read h => by cases h) hread name read hfound
  obtain ⟨hholds, himported⟩ := readModulesFrom_holds hsources (fun name read h => by cases h) hread
    name read hfound
  rw [hcontracts, hfactories]
  refine ⟨fun id => hosted_of_readModule hends, hholds, fun id site lazy himport => ?_⟩
  exact himported _ (himports id site lazy himport) id site lazy rfl

/-! ## Hosting -/

theorem mem_of_readHosted {α : Type} {entities : List (ClassName × α)}
    {hosted : List (ClassName × α)} (h : (path.readHosted entities).result = .ok hosted)
    {host : ClassName} {entity : α} (hentry : (host, entity) ∈ hosted) :
    ∃ name, (name, entity) ∈ entities := by
  have hends : Ends (path.readHosted entities) () hosted () := h
  simp only [readHosted, ends_bind, ends_pure] at hends
  obtain ⟨lists, _, hlists, rfl, -⟩ := hends
  have hyields : ∀ named ∈ entities, Yields (fun _ (list : List (ClassName × α)) =>
      ∀ item ∈ list, ∃ name, (name, item.2) ∈ entities) (do
        let hosts ← path.readHosts named.1
        return hosts.map fun host => (host, named.2) : Work (List (ClassName × α))) := by
    refine fun named hnamed => .bind fun hosts => .pure fun _ item hitem => ?_
    obtain ⟨other, -, rfl⟩ := List.mem_map.1 hitem
    exact ⟨named.1, hnamed⟩
  have hall := Yields.mapM (fun _ _ _ _ _ _ hkept _ => hkept) hyields _ _ _ hlists
  obtain ⟨list, hlist, hmem⟩ := List.mem_flatten.1 hentry
  exact hall list hlist _ hmem

theorem readHosting_inRange {providable : List InjectionTarget} {factories : Arena .factory Factory}
    {contracts : Arena .contract Contract} {hosting : Hosting}
    (h : (path.readHosting providable factories contracts).result = .ok hosting) :
    (∀ entry ∈ hosting.factories, ∃ factory, factories.get? entry.2 = some factory) ∧
      ∀ entry ∈ hosting.contracts, ∃ contract, contracts.get? entry.2 = some contract := by
  have hends : Ends (path.readHosting providable factories contracts) () hosting () := h
  simp only [readHosting, ends_bind, ends_pure] at hends
  obtain ⟨importedBy, _, -, targets, _, -, hostedFactories, _, hfactories, hostedContracts, _,
    hcontracts, rfl, -⟩ := hends
  constructor
  · intro entry hentry
    obtain ⟨name, hmem⟩ := mem_of_readHosted hfactories hentry
    obtain ⟨⟨id, factory⟩, hfactory, heq⟩ := List.mem_map.1 hmem
    cases heq
    exact ⟨factory, Arena.get?_of_mem_entries hfactory⟩
  · intro entry hentry
    obtain ⟨name, hmem⟩ := mem_of_readHosted hcontracts hentry
    obtain ⟨⟨id, contract⟩, hcontract, heq⟩ := List.mem_map.1 hmem
    cases heq
    exact ⟨contract, Arena.get?_of_mem_entries hcontract⟩

/-! ## Roots and marked classes -/

theorem yieldsHolds_readConfiguration (decl : ClassDecl) :
    Yields (fun book (read : Option (ClassName × Id .contract)) => ∀ entry ∈ read,
      book.Holds entry.2) (path.readConfiguration project decl) := by
  unfold readConfiguration
  split
  · exact .pure fun _ _ h => by cases h
  · split
    · exact .bind fun _ => .pure fun _ _ h => by cases h
    · refine .bind fun contract => ?_
      split
      · refine .bind fun _ => ?_
        intro before value after h
        obtain ⟨id, between, hid, h⟩ := ends_bind.1 h
        obtain ⟨rfl, rfl⟩ := ends_pure.1 h
        rintro _ ⟨⟩
        exact yieldsHolds_readContract _ _ _ _ hid
      · exact .pure fun _ _ h => by cases h

theorem configured_of_readRoots {before after : ContractBook} {found : Roots}
    (h : Ends (path.readRoots project) before found after) :
    ∀ entry ∈ found.configurations, after.Holds entry.2 := by
  simp only [readRoots, ends_bind, ends_pure] at h
  obtain ⟨roots, _, hroots, rfl, rfl⟩ := h
  have hall : ∀ read ∈ roots, ∀ entry ∈ read.2, after.Holds entry.2 := by
    refine @Yields.mapM _ _ _ _ _ _ _
      (fun book read => ∀ entry ∈ read.2, ContractBook.Holds book entry.2) _ _ ?keeps ?yields _ _ _
      hroots
    case keeps =>
      intro decl _ read before value after hheld hends entry hentry
      have hkeeps : Keeps (fun book : ContractBook => book.Holds entry.2)
          (path.readConfiguration project decl) :=
        keeps_readConfiguration (keepsHolds_readContract entry.2) decl
      simp only [ends_bind, BookWork.ends_logged, ends_pure] at hends
      obtain ⟨-, _, ⟨-, rfl⟩, configuration, _, hconfiguration, -, rfl⟩ := hends
      exact hkeeps _ _ _ (hheld entry hentry) hconfiguration
    case yields =>
      refine fun decl _ => .bind fun component => ?_
      intro before value after hends
      obtain ⟨configuration, between, hread, hends⟩ := ends_bind.1 hends
      obtain ⟨rfl, rfl⟩ := ends_pure.1 hends
      exact yieldsHolds_readConfiguration decl _ _ _ hread
  intro entry hentry
  obtain ⟨read, hread, heq⟩ := List.mem_filterMap.1 hentry
  exact hall read hread entry heq

def IsImplemented (factory : Factory) : Prop :=
  factory.implementation = factoryImplementation factory.name

theorem isImplemented_of_readFactory {decl : ClassDecl} {factory : Factory}
    (h : (path.readFactory decl).result = .ok factory) : IsImplemented factory := by
  have hends : Ends (path.readFactory decl) () factory () := h
  simp only [readFactory, ends_bind, ends_pure] at hends
  obtain ⟨-, _, -, qualifier, _, -, methods, _, -, rfl, -⟩ := hends
  rfl

theorem eq_of_contractPart {decl : ClassDecl} {factory read : Option Factory}
    {before after : ContractBook}
    (h : Ends (do
      if decl.isAnnotated Vocabulary.contract then
        let _ ← path.readContract project decl.name
      return factory : BookWork (Option Factory)) before read after) : read = factory := by
  dsimp only at h
  split at h
  · simp only [ends_bind, ends_pure] at h
    obtain ⟨_, _, _, heq, _⟩ := h
    exact heq
  · exact (ends_pure.1 h).1

theorem yieldsImplemented_readMarked (decl : ClassDecl) :
    Yields (fun _ (read : Option Factory) => ∀ factory ∈ read, IsImplemented factory)
      (path.readMarked project decl) := by
  intro before read after h
  unfold readMarked at h
  dsimp only at h
  split at h
  · obtain ⟨factory, _, hfactory, h⟩ := ends_bind.1 h
    obtain ⟨held, _, hheld, h⟩ := ends_bind.1 h
    rw [eq_of_contractPart h, (ends_pure.1 hheld).1]
    rintro _ ⟨⟩
    exact isImplemented_of_readFactory (BookWork.ends_work.1 hfactory).1
  · obtain ⟨held, _, hheld, h⟩ := ends_bind.1 h
    rw [eq_of_contractPart h, (ends_pure.1 hheld).1]
    exact fun _ h => by cases h

theorem isImplemented_of_readMarkedClasses {before after : ContractBook} {marked : MarkedClasses}
    (h : Ends (path.readMarkedClasses project) before marked after) :
    ∀ factory ∈ marked.factories.items, IsImplemented factory := by
  simp only [readMarkedClasses, ends_bind, ends_pure] at h
  obtain ⟨read, _, hread, rfl, rfl⟩ := h
  have hall := Yields.mapM (fun _ _ _ _ _ _ hkept _ => hkept)
    (fun decl _ => yieldsImplemented_readMarked decl) _ _ _ hread
  intro factory hfactory
  obtain ⟨⟨name, held⟩, hentry, rfl⟩ := List.mem_map.1 hfactory
  have hlisted := Table.mem_of_find?_ofList (Table.find?_eq_some_iff.2 hentry)
  obtain ⟨other, hother, heq⟩ := List.mem_map.1 hlisted
  cases heq
  obtain ⟨some?, hsome, heq⟩ := List.mem_filterMap.1 hother
  exact hall some? hsome _ heq

end ClassPath

/-! ## The whole graph -/

/-- Every id that a module refers to is in the graph, and every factory and contract is implemented
by the class that is named after it. -/
structure ObjectGraph.Grounded (project : String) (graph : ObjectGraph) : Prop where
  hosted_factories : ∀ module ∈ graph.modules.items, ∀ id ∈ module.factories,
    ∃ factory, graph.factories.get? id = some factory
  hosted_contracts : ∀ module ∈ graph.modules.items, ∀ id ∈ module.contracts,
    ∃ contract, graph.contracts.get? id = some contract
  imported_contracts : ∀ module ∈ graph.modules.items, ∀ id site lazy,
    .contract id site lazy ∈ module.imports → ∃ contract, graph.contracts.get? id = some contract
  factory_implementations : ∀ factory ∈ graph.factories.items,
    factory.implementation = factoryImplementation factory.name
  contract_implementations : ∀ contract ∈ graph.contracts.items,
    contract.implementation = contractImplementation contract.name project

namespace ClassPath

variable {path : ClassPath} {project : String}

theorem grounded_of_ends {before after : ContractBook} {graph : ObjectGraph}
    (hbefore : before.Implemented project)
    (h : Ends (path.readGraphFrom project) before graph after) :
    graph.Grounded project := by
  obtain ⟨marked, found, sources, roots, middle, late, rfl, hhosting, hsourced, hconfigured,
    hmarked, hfound, hmodules, hcontracts, hfactories⟩ := exists_steps_of_ends h
  obtain ⟨hhostedFactories, hhostedContracts⟩ := readHosting_inRange hhosting
  -- What hosts a contract was read before the modules, from a book that has only grown since.
  have hsources : SourcesHeld sources late := by
    constructor
    · intro entry hentry
      have hmiddle : middle.Holds entry.2 := Arena.exists_get?_iff.1 (hhostedContracts entry hentry)
      exact keeps_readRoots (keepsHolds_readContract entry.2) _ _ _ hmiddle hfound
    · rw [hconfigured]
      exact configured_of_readRoots hfound
  have hread := fun module => @readModules_holds _ _ _ _ _ _ hsources hmodules module
  constructor
  case hosted_factories =>
    intro module hmodule id hid
    obtain ⟨host, hhosted⟩ := (hread module hmodule).1 id hid
    rw [hfactories, ← hsourced]
    exact hhostedFactories _ hhosted
  case hosted_contracts =>
    intro module hmodule id hid
    rw [hcontracts]
    exact Arena.exists_get?_iff.2 ((hread module hmodule).2.1 id hid)
  case imported_contracts =>
    intro module hmodule id site lazy himport
    rw [hcontracts]
    exact Arena.exists_get?_iff.2 ((hread module hmodule).2.2 id site lazy himport)
  case factory_implementations =>
    rw [hfactories]
    exact isImplemented_of_readMarkedClasses hmarked
  case contract_implementations =>
    have hcontract := fun name => @keepsImplemented_readContract path sources.project name
    have hmiddle := keeps_readMarkedClasses hcontract _ _ _ hbefore hmarked
    have hlate := keeps_readRoots hcontract _ _ _ hmiddle hfound
    have hafter := keeps_readModules sources hcontract roots _ _ _ hlate hmodules
    intro contract hheld
    rw [hcontracts] at hheld
    obtain ⟨⟨name, held⟩, hentry, rfl⟩ := List.mem_map.1 hheld
    exact hafter name held (Table.find?_eq_some_iff.2 hentry)

theorem grounded_readGraph {graph : ObjectGraph}
    (h : (path.readGraph project).result = .ok graph) : graph.Grounded project := by
  have hends : Ends (path.readGraph project) () graph () := h
  simp only [readGraph, ends_bind, ends_pure] at hends
  obtain ⟨⟨read, book⟩, _, hread, rfl, -⟩ := hends
  exact grounded_of_ends (fun name contract h => by cases h) hread

end ClassPath

end InjectionCompiler
