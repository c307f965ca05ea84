import InjectionCompiler.ObjectGraph.Discovery
import InjectionCompiler.Proofs.Journal

/-!
# What reading leaves behind

Entities stand under their own names, and a class that several modules host has the same
constructor in all of them.
-/

namespace InjectionCompiler

/-! ## Arenas -/

namespace Arena

variable {entity : Entity} {α : Type}

/-- Every entity stands under its own name. -/
def Named (nameOf : α → ClassName) (arena : Arena entity α) : Prop :=
  ∀ name item, arena.named? name = some item → nameOf item = name

theorem named_empty (nameOf : α → ClassName) : Named nameOf (∅ : Arena entity α) := by
  intro name item h
  cases h

theorem Named.insert {nameOf : α → ClassName} {arena : Arena entity α} (h : arena.Named nameOf)
    {item : α} {name : ClassName} (hname : nameOf item = name) :
    (arena.insert name item).2.Named nameOf := by
  intro other held hheld
  simp only [Arena.insert, named?, Table.find?_insert] at hheld
  split at hheld
  · next heq =>
      cases hheld
      rw [hname, heq]
  · exact h other held hheld

theorem named?_of_get? {arena : Arena entity α} {id : Id entity} {item : α}
    (h : arena.get? id = some item) :
    ∃ name, arena.table.keys[id.index]? = some name ∧ arena.named? name = some item := by
  simp only [get?, Table.values, List.getElem?_map, Option.map_eq_some_iff] at h
  obtain ⟨⟨name, held⟩, hentry, rfl⟩ := h
  refine ⟨name, ?_, Table.find?_eq_some_iff.2 (List.mem_of_getElem? hentry)⟩
  simp [Table.keys, hentry]

theorem exists_get?_of_nameOf? {arena : Arena entity α} {id : Id entity} {name : ClassName}
    (h : arena.nameOf? id = some name) :
    ∃ item, arena.get? id = some item ∧ arena.named? name = some item := by
  simp only [nameOf?, Table.keys, List.getElem?_map, Option.map_eq_some_iff] at h
  obtain ⟨⟨_, item⟩, hentry, rfl⟩ := h
  refine ⟨item, ?_, Table.find?_eq_some_iff.2 (List.mem_of_getElem? hentry)⟩
  simp [get?, Table.values, hentry]

theorem Named.id_unique {nameOf : α → ClassName} {arena : Arena entity α} (h : arena.Named nameOf)
    {a b : Id entity} {x y : α} (ha : arena.get? a = some x) (hb : arena.get? b = some y)
    (hname : nameOf x = nameOf y) : a = b := by
  obtain ⟨first, hfirst, hx⟩ := named?_of_get? ha
  obtain ⟨second, hsecond, hy⟩ := named?_of_get? hb
  rw [h _ _ hx, h _ _ hy] at hname
  subst hname
  have hlength := (List.getElem?_eq_some_iff.1 hfirst).1
  have hindex := (List.getElem?_inj hlength arena.table.distinct).1 (hfirst.trans hsecond.symm)
  cases a
  cases b
  exact congrArg Id.mk hindex

theorem exists_get?_of_mem {arena : Arena entity α} {item : α} (h : item ∈ arena.items) :
    ∃ id, arena.get? id = some item := by
  obtain ⟨index, hindex⟩ := List.getElem?_of_mem h
  exact ⟨⟨index⟩, hindex⟩

theorem mem_items_of_get? {arena : Arena entity α} {id : Id entity} {item : α}
    (h : arena.get? id = some item) : item ∈ arena.items :=
  List.mem_of_getElem? h

theorem Named.item_unique {nameOf : α → ClassName} {arena : Arena entity α}
    (h : arena.Named nameOf) {x y : α} (hx : x ∈ arena.items) (hy : y ∈ arena.items)
    (hname : nameOf x = nameOf y) : x = y := by
  obtain ⟨a, ha⟩ := exists_get?_of_mem hx
  obtain ⟨b, hb⟩ := exists_get?_of_mem hy
  obtain rfl := h.id_unique ha hb hname
  exact Option.some.inj (ha.symm.trans hb)

theorem Named.map_items {nameOf : α → ClassName} {arena : Arena entity α} (h : arena.Named nameOf) :
    arena.items.map nameOf = arena.names := by
  rw [items, Table.values, names, Table.keys, List.map_map]
  exact List.map_congr_left fun entry hentry => h _ _ (Table.find?_eq_some_iff.2 hentry)

end Arena

/-- The point is the constructor of its owner. -/
def ProvisionPoint.IsConstructor (point : ProvisionPoint) : Prop :=
  ∃ injectees, point.origin = .constructor injectees

/-! ## The book of contracts -/

def ContractBook.Named (book : ContractBook) : Prop :=
  book.contracts.Named Contract.name

namespace ClassPath

variable {path : ClassPath} {project : String}

theorem readContract_spec {name : ClassName} {before after : ContractBook} {id : Id .contract}
    (h : Ends (path.readContract project name) before id after) :
    (before.contracts.find? name = some id ∧ after = before) ∨
      ∃ contract : Contract, contract.name = name ∧
        contract.implementation = contractImplementation name project ∧
        before.contracts.insert name contract = (id, after.contracts) ∧
        before.contracts.find? name = none ∧
        (path.readGetters [] name before.getters).result =
          .ok (contract.getters, after.getters) := by
  unfold readContract at h
  simp only [ends_bind, BookWork.ends_get] at h
  obtain ⟨book, between, ⟨rfl, rfl⟩, h⟩ := h
  split at h
  · next held hheld =>
      obtain ⟨rfl, rfl⟩ := ends_pure.1 h
      exact .inl ⟨hheld, rfl⟩
  · next hnew =>
      split at h
      · simp only [ends_bind, BookWork.ends_logged, BookWork.ends_work, BookWork.ends_set,
          ends_pure] at h
        obtain ⟨-, _, ⟨-, rfl⟩, qualifier, _, ⟨-, rfl⟩, read, _, ⟨hread, rfl⟩, -, _, rfl, rfl,
          rfl⟩ := h
        exact .inr ⟨_, rfl, rfl, rfl, hnew, hread⟩
      · exact absurd h BookWork.ends_throw

theorem keepsNamed_readContract (name : ClassName) :
    Keeps ContractBook.Named (path.readContract project name) := by
  intro before id after hnamed h
  rcases readContract_spec h with ⟨-, rfl⟩ | ⟨contract, hname, -, hinsert, -⟩
  · exact hnamed
  · have hinserted : after.contracts = (before.contracts.insert name contract).2 := by rw [hinsert]
    rw [ContractBook.Named, hinserted]
    exact hnamed.insert hname

/-! ## What every look-up of a contract keeps -/

section

variable {Kept : ContractBook → Prop}
  (hcontract : ∀ name, Keeps Kept (path.readContract project name))

include hcontract

private theorem keeps_contractPart (decl : ClassDecl) (factory : Option Factory) :
    Keeps Kept (do
      if decl.isAnnotated Vocabulary.contract then
        let _ ← path.readContract project decl.name
      return factory : BookWork (Option Factory)) := by
  dsimp only
  split
  · exact .bind (hcontract _) fun _ => .pure _
  · exact .pure _

theorem keeps_readMarked (decl : ClassDecl) :
    Keeps Kept (path.readMarked project decl) := by
  unfold readMarked
  dsimp only
  split
  · refine .bind (BookWork.keeps_work _) fun factory => .bind (.pure _) fun _ => ?_
    exact keeps_contractPart hcontract decl _
  · exact .bind (.pure _) fun _ => keeps_contractPart hcontract decl _

theorem keeps_readConfiguration (decl : ClassDecl) :
    Keeps Kept (path.readConfiguration project decl) := by
  unfold readConfiguration
  split
  · exact .pure _
  · split
    · exact .bind (BookWork.keeps_logged _) fun _ => .pure _
    · refine .bind (BookWork.keeps_logged _) fun contract => ?_
      split
      · refine .bind (BookWork.keeps_logged _) fun _ => ?_
        exact .bind (hcontract _) fun _ => .pure _
      · exact .pure _

theorem keeps_readMarkedClasses : Keeps Kept (path.readMarkedClasses project) := by
  unfold readMarkedClasses
  exact .bind (.mapM fun decl _ => keeps_readMarked hcontract decl) fun _ => .pure _

theorem keeps_readRoots : Keeps Kept (path.readRoots project) := by
  unfold readRoots
  refine .bind (.mapM fun decl _ => ?_) fun _ => .pure _
  refine .bind (BookWork.keeps_logged _) fun _ => ?_
  exact .bind (keeps_readConfiguration hcontract decl) fun _ => .pure _

theorem keeps_readImport (annotations : List Annotation) (declared : Signature)
    (element : String) (site : ImportSite) :
    Keeps Kept (path.readImport project annotations declared element site) := by
  unfold readImport
  refine .bind (BookWork.keeps_logged _) fun read => ?_
  dsimp only
  split
  · next name lazy =>
      split
      · exact .bind (hcontract _) fun _ => .pure _
      · split
        · refine .bind (BookWork.keeps_logged _) fun _ => ?_
          split
          · split
            · exact .bind (BookWork.keeps_logged _) fun _ => .pure _
            · exact .pure _
          · exact BookWork.keeps_throw _
        · split
          · split
            · exact .bind (BookWork.keeps_logged _) fun _ => .pure _
            · exact .pure _
          · exact BookWork.keeps_throw _
  · exact .pure _

theorem keeps_readMethodImport (owner : ClassName) (method : MethodDecl) :
    Keeps Kept (path.readMethodImport project owner method) := by
  unfold readMethodImport
  dsimp only
  split
  · exact .bind (BookWork.keeps_logged _) fun _ => .pure _
  · split
    · exact .bind (BookWork.keeps_logged _) fun _ => .pure _
    · exact .bind (BookWork.keeps_logged _) fun _ => keeps_readImport hcontract _ _ _ _

theorem keeps_readFieldImport (owner : ClassName) (field : FieldDecl) :
    Keeps Kept (path.readFieldImport project owner field) := by
  unfold readFieldImport
  exact .bind (BookWork.keeps_logged _) fun _ => keeps_readImport hcontract _ _ _ _

end

/-- A class with type parameters is read as an empty module.  Any other is read with the imports it
declares, its own provision points, and what it hosts. -/
theorem readModule_cases {sources : ModuleSources} {decl : ClassDecl} {before after : ContractBook}
    {read : Module × List DeclaredImport}
    (h : Ends (path.readModule sources decl) before read after) :
    (decl.typeParameters.isEmpty = false ∧ read = (.empty decl.name, []) ∧ after = before) ∨
      (decl.typeParameters.isEmpty = true ∧
        Ends (path.readImports sources decl) before read.2 after ∧
        read.1.name = decl.name ∧
        read.1.provisionPoints = (path.readProvisionPoints sources decl).value ∧
        read.1.bindings = firsts id ((moduleKeys sources after read.1.provisionPoints
          read.1.factories read.1.contracts).flatMap sources.bindings.ofImplementation) ∧
        read.1.factories = hostedBy sources.hosting.factories decl.name ∧
        read.1.contracts = hostedBy sources.hosting.contracts decl.name ++
          (sources.configured.lookup decl.name).toList) := by
  unfold readModule at h
  dsimp only at h
  split at h
  · next hopen =>
      simp only [ends_bind, BookWork.ends_logged, ends_pure] at h
      obtain ⟨-, _, ⟨-, rfl⟩, rfl, rfl⟩ := h
      exact .inl ⟨by simpa using hopen, rfl, rfl⟩
  · next hclosed =>
      simp only [ends_bind, BookWork.ends_logged, BookWork.ends_get, ends_pure] at h
      obtain ⟨-, _, ⟨-, rfl⟩, imports, _, himports, _, _, ⟨rfl, rfl⟩, _, _, ⟨rfl, rfl⟩, rfl, rfl⟩ :=
        h
      exact .inr ⟨by simpa using hclosed, himports, rfl, rfl, rfl, rfl, rfl⟩

section

variable {Kept : ContractBook → Prop} (sources : ModuleSources)
  (hcontract : ∀ name, Keeps Kept (path.readContract sources.project name))

include hcontract

theorem keeps_readImports (decl : ClassDecl) : Keeps Kept (path.readImports sources decl) := by
  unfold readImports
  refine .bind (.mapM fun method _ => keeps_readMethodImport hcontract _ method) fun _ => ?_
  refine .bind (.mapM fun field _ => keeps_readFieldImport hcontract _ field) fun _ => ?_
  exact .bind (.mapM fun importee _ => BookWork.keeps_logged _) fun _ => .pure _

theorem keeps_readModule (decl : ClassDecl) : Keeps Kept (path.readModule sources decl) := by
  intro before read after hkept h
  rcases readModule_cases h with ⟨-, -, rfl⟩ | ⟨-, himports, -⟩
  · exact hkept
  · exact keeps_readImports sources hcontract decl _ _ _ hkept himports

theorem keeps_readModulesFrom (known : UnlinkedModules) (queue : List ClassName) :
    Keeps Kept (path.readModulesFrom sources known queue) := by
  fun_induction path.readModulesFrom sources known queue with
  | case1 => exact .pure _
  | case2 => exact BookWork.keeps_throw _
  | case3 known queue name rest hqueue decl hdecl ih =>
      exact .bind (keeps_readModule sources hcontract decl) fun read => ih read

theorem keeps_readModules (roots : List ClassName) :
    Keeps Kept (path.readModules sources roots) := by
  unfold readModules
  exact .bind (keeps_readModulesFrom sources hcontract ∅ roots) fun _ => .pure _

end

/-! ## Modules -/

/-- The module that stands under `name`, with its unlinked imports, was read from its class. -/
def WasRead (path : ClassPath) (sources : ModuleSources) (name : ClassName)
    (read : Module × List DeclaredImport) : Prop :=
  ∃ decl before after, path.find? name = some decl ∧
    Ends (path.readModule sources decl) before read after

theorem wasRead_of_ends {sources : ModuleSources} {known modules : UnlinkedModules}
    {queue : List ClassName} {before after : ContractBook}
    (hknown : ∀ name read, known.find? name = some read → path.WasRead sources name read)
    (h : Ends (path.readModulesFrom sources known queue) before modules after) :
    ∀ name read, modules.find? name = some read → path.WasRead sources name read := by
  fun_induction path.readModulesFrom sources known queue generalizing before with
  | case1 =>
      rw [(ends_pure.1 h).1]
      exact hknown
  | case2 => exact absurd h BookWork.ends_throw
  | case3 known queue name rest hqueue decl hdecl ih =>
      obtain ⟨read, between, hread, hrest⟩ := ends_bind.1 h
      refine ih read (fun other held hheld => ?_) hrest
      rw [Table.find?_insert] at hheld
      split at hheld
      · next heq =>
          cases hheld
          rw [heq]
          exact ⟨decl, _, _, hdecl, hread⟩
      · exact hknown other held hheld

theorem readModule_spec {sources : ModuleSources} {decl : ClassDecl} {before after : ContractBook}
    {read : Module × List DeclaredImport}
    (h : Ends (path.readModule sources decl) before read after) :
    read.1.name = decl.name ∧
      ∀ point ∈ read.1.provisionPoints, point ∈ (path.readProvisionPoints sources decl).value := by
  rcases readModule_cases h with ⟨-, rfl, -⟩ | ⟨-, -, hname, hpoints, -⟩
  · exact ⟨rfl, fun point hpoint => absurd hpoint List.not_mem_nil⟩
  · exact ⟨hname, fun point hpoint => hpoints ▸ hpoint⟩

/-! ## Constructors -/

theorem owner_of_readConstructorPoint {sources : ModuleSources} {name : ClassName}
    {point : ProvisionPoint} (h : (path.readConstructorPoint sources name).value = some point) :
    point.owner = name := by
  unfold readConstructorPoint at h
  split at h
  · split at h
    · cases h
      rfl
    · cases h
  · cases h

theorem not_isConstructor_of_readMethodProvision {owner : ClassName} {method : MethodDecl}
    {point : ProvisionPoint} (h : (path.readMethodProvision owner method).value = some point) :
    ¬ point.IsConstructor := by
  unfold readMethodProvision at h
  dsimp only at h
  split at h
  · cases h
  · cases h
    rintro ⟨injectees, horigin⟩
    cases horigin

theorem readConstructorPoint_of_mem {sources : ModuleSources} {decl : ClassDecl}
    {point : ProvisionPoint} (hpoint : point ∈ (path.readProvisionPoints sources decl).value)
    (hconstructor : point.IsConstructor) :
    (path.readConstructorPoint sources point.owner).value = some point := by
  simp only [readProvisionPoints, Logged.value_bind, Logged.value_mapM, Logged.value_pure,
    List.mem_append, List.mem_filterMap, List.mem_map, id_eq] at hpoint
  rcases hpoint with (⟨_, ⟨name, -, rfl⟩, hread⟩ | ⟨_, ⟨method, -, rfl⟩, hread⟩) | ⟨field, -, rfl⟩
  · rw [owner_of_readConstructorPoint hread]
    exact hread
  · exact absurd hconstructor (not_isConstructor_of_readMethodProvision hread)
  · obtain ⟨injectees, horigin⟩ := hconstructor
    cases horigin

end ClassPath

/-! ## The whole graph -/

/-- Entities stand under their own names, and a class has one constructor, however many modules
host it. -/
structure ObjectGraph.WellFormed (graph : ObjectGraph) : Prop where
  modules_named : graph.modules.Named Module.name
  contracts_named : graph.contracts.Named Contract.name
  factories_named : graph.factories.Named Factory.name
  constructor_unique : ∀ module ∈ graph.modules.items, ∀ other ∈ graph.modules.items,
    ∀ a ∈ module.provisionPoints, ∀ b ∈ other.provisionPoints,
      a.IsConstructor → b.IsConstructor → a.owner = b.owner → a = b

namespace ClassPath

variable {path : ClassPath} {project : String}

theorem exists_wasRead_of_linked {sources : ModuleSources} {known : UnlinkedModules}
    (hknown : ∀ name read, known.find? name = some read → path.WasRead sources name read)
    {name : ClassName} {module : Module} (h : (name, module) ∈ (linkModules known).table.entries) :
    module.name = name ∧ ∃ decl, ∀ point ∈ module.provisionPoints,
      point ∈ (path.readProvisionPoints sources decl).value := by
  obtain ⟨⟨other, read⟩, hentry, heq⟩ := List.mem_map.1 h
  cases heq
  obtain ⟨decl, before, after, hdecl, hends⟩ := hknown _ _ (Table.find?_eq_some_iff.2 hentry)
  obtain ⟨hname, hpoints⟩ := readModule_spec hends
  exact ⟨hname.trans (name_of_find? hdecl), decl, hpoints⟩

theorem ends_readModules {sources : ModuleSources} {roots : List ClassName}
    {before after : ContractBook} {modules : Arena .module Module}
    (h : Ends (path.readModules sources roots) before modules after) :
    ∃ known, modules = linkModules known ∧
      ∀ name read, known.find? name = some read → path.WasRead sources name read := by
  simp only [readModules, ends_bind, ends_pure] at h
  obtain ⟨known, between, hread, rfl, -⟩ := h
  exact ⟨known, rfl, wasRead_of_ends (fun name read h => by cases h) hread⟩

theorem named_factories_of_ends {before after : ContractBook} {marked : MarkedClasses}
    (h : Ends (path.readMarkedClasses project) before marked after) :
    marked.factories.Named Factory.name := by
  simp only [readMarkedClasses, ends_bind, ends_pure] at h
  obtain ⟨factories, between, -, rfl, -⟩ := h
  intro name factory hfactory
  obtain ⟨held, -, heq⟩ := List.mem_map.1 (Table.mem_of_find?_ofList hfactory)
  cases heq
  rfl

theorem exists_steps_of_ends {before after : ContractBook} {graph : ObjectGraph}
    (h : Ends (path.readGraphFrom project) before graph after) :
    ∃ (marked : MarkedClasses) (found : Roots) (sources : ModuleSources) (roots : List ClassName)
        (middle late : ContractBook),
      sources.project = project ∧
        (path.readHosting sources.providable sources.factories middle.contracts).result =
          .ok sources.hosting ∧
        sources.factories = marked.factories ∧ sources.configured = found.configurations ∧
        Ends (path.readMarkedClasses project) before marked middle ∧
        Ends (path.readRoots project) middle found late ∧
        Ends (path.readModules sources roots) late graph.modules after ∧
        graph.contracts = after.contracts ∧ graph.factories = marked.factories := by
  simp only [readGraphFrom, ends_bind, BookWork.ends_logged, BookWork.ends_work,
    BookWork.ends_get, ends_pure] at h
  obtain ⟨-, _, ⟨-, rfl⟩, targets, _, ⟨-, rfl⟩, bindings, _, ⟨-, rfl⟩, marked, _, hmarked, h⟩ := h
  obtain ⟨_, _, ⟨rfl, rfl⟩, hosting, _, ⟨hhosting, rfl⟩, found, _, hfound, modules, _, hmodules,
    h⟩ := h
  obtain ⟨_, _, ⟨rfl, rfl⟩, -, _, ⟨-, rfl⟩, -, _, ⟨-, rfl⟩, rfl, rfl⟩ := h
  exact ⟨marked, found, ⟨project, hosting, bindings, targets.providable, marked.factories,
    found.configurations⟩, _, _, _, rfl, hhosting, rfl, rfl, hmarked, hfound, hmodules, rfl, rfl⟩

theorem wellFormed_of_ends {before after : ContractBook} {graph : ObjectGraph}
    (hbefore : before.Named) (h : Ends (path.readGraphFrom project) before graph after) :
    graph.WellFormed := by
  obtain ⟨marked, found, sources, roots, middle, late, rfl, -, -, -, hmarked, hfound, hmodules,
    hcontracts, hfactories⟩ := exists_steps_of_ends h
  obtain ⟨known, hlinked, hknown⟩ := ends_readModules hmodules
  have hread : ∀ module ∈ graph.modules.items, ∃ decl, ∀ point ∈ module.provisionPoints,
      point ∈ (path.readProvisionPoints sources decl).value := by
    intro module hmodule
    rw [hlinked] at hmodule
    obtain ⟨entry, hentry, rfl⟩ := List.mem_map.1 hmodule
    exact (exists_wasRead_of_linked hknown hentry).2
  constructor
  case modules_named =>
    rw [hlinked]
    intro name module hmodule
    exact (exists_wasRead_of_linked hknown (Table.mem_entries_of_find? hmodule)).1
  case contracts_named =>
    have hcontract := fun name => @keepsNamed_readContract path sources.project name
    have hmiddle := keeps_readMarkedClasses hcontract _ _ _ hbefore hmarked
    have hlate := keeps_readRoots hcontract _ _ _ hmiddle hfound
    rw [hcontracts]
    exact keeps_readModules sources hcontract roots _ _ _ hlate hmodules
  case factories_named =>
    rw [hfactories]
    exact named_factories_of_ends hmarked
  case constructor_unique =>
    -- Both points were read from the one constructor of their class.
    intro module hmodule other hother a ha b hb hfirst hsecond howner
    obtain ⟨decl, hpoints⟩ := hread module hmodule
    obtain ⟨otherDecl, hothers⟩ := hread other hother
    have haRead := readConstructorPoint_of_mem (hpoints a ha) hfirst
    have hbRead := readConstructorPoint_of_mem (hothers b hb) hsecond
    rw [howner, hbRead] at haRead
    exact (Option.some.inj haRead).symm

theorem wellFormed_readGraph {graph : ObjectGraph}
    (h : (path.readGraph project).result = .ok graph) :
    graph.WellFormed := by
  have hends : Ends (path.readGraph project) () graph () := h
  simp only [readGraph, ends_bind, ends_pure] at hends
  obtain ⟨⟨read, book⟩, _, hread, rfl, -⟩ := hends
  exact wellFormed_of_ends (show ContractBook.Named ∅ from Arena.named_empty _) hread

end ClassPath

end InjectionCompiler
