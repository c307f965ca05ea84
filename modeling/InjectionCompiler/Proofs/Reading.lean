import InjectionCompiler.Proofs.Firsts
import InjectionCompiler.Proofs.Hosting

/-!
# What is read

Every part of an object graph is told by the classes it is read from.  Modules are read from the
roots alone: whatever a module imports is marked as a module and is a root itself.
-/

namespace InjectionCompiler

open SearchSpace (unseen)

namespace ClassPath

variable {path : ClassPath} {keeping : Bookkeeping} {sources : ModuleSources}

/-! ## One module -/

/-- The provision points of a container.  Its hosted classes are all that they are read from besides
the container itself. -/
def pointsOf (path : ClassPath) (decl : ClassDecl) : Logged (List ProvisionPoint) :=
  path.readProvisionPoints
    { project := ""
      hosting := ⟨[], path.hosted path.providedNames, [], []⟩
      bindings := ∅
      providable := path.readTargets.value.providable
      factories := ∅
      configured := [] } decl

/-- The sources have what is declared away from the containers. -/
structure Gathers (path : ClassPath) (sources : ModuleSources) : Prop where
  importedBy : sources.hosting.importedBy = path.importedBy
  targets : sources.hosting.targets = path.hosted path.providedNames
  providable : sources.providable = path.readTargets.value.providable

theorem Gathers.points (h : path.Gathers sources) (decl : ClassDecl) :
    path.readProvisionPoints sources decl = path.pointsOf decl := by
  unfold pointsOf readProvisionPoints
  simp only [h.targets]
  unfold readConstructorPoint
  simp only [h.providable]

def moduleOf (path : ClassPath) (sources : ModuleSources) (book : ContractBook) (decl : ClassDecl) :
    Module :=
  if decl.typeParameters.isEmpty then
    let points := (path.pointsOf decl).value
    let factories := hostedBy sources.hosting.factories decl.name
    let contracts := hostedBy sources.hosting.contracts decl.name ++
      (sources.configured.lookup decl.name).toList
    { name := decl.name
      imports := []
      provisionPoints := points
      bindings := firsts id ((moduleKeys sources book points factories contracts).flatMap
        sources.bindings.ofImplementation)
      factories := factories
      contracts := contracts }
  else .empty decl.name

theorem imports_moduleOf (book : ContractBook) (decl : ClassDecl) :
    (path.moduleOf sources book decl).imports = [] := by
  unfold moduleOf
  split <;> rfl

def Reads (path : ClassPath) (sources : ModuleSources) (book : ContractBook) (name : ClassName)
    (read : Module × List DeclaredImport) : Prop :=
  ∃ decl, path.find? name = some decl ∧ read.1 = path.moduleOf sources book decl ∧
    List.Forall₂ book.Denotes (path.declaredImports decl) read.2

def moduleToll (path : ClassPath) (keeping : Bookkeeping) (decl : ClassDecl) : Toll :=
  if decl.typeParameters.isEmpty then
    path.importsToll keeping decl + .reporting (path.pointsOf decl).faults.length
  else .reporting 1

theorem get?_of_extends {before after : ContractBook} (h : before.Extends after)
    {id : Id .contract} (hid : before.Holds id) :
    after.contracts.get? id = before.contracts.get? id := by
  obtain ⟨later, hlater⟩ := h
  have hlength : id.index < (before.contracts.table.entries.map Prod.snd).length := by
    rw [List.length_map]
    exact hid
  rw [Arena.get?, Arena.get?, Table.values, Table.values, ← hlater, List.map_append,
    List.getElem?_append_left hlength]

theorem SourcesHeld.mono {before after : ContractBook} (h : before.Extends after)
    (hheld : SourcesHeld sources before) : SourcesHeld sources after := by
  have hgrows : ∀ id, before.Holds id → after.Holds id := fun id hid =>
    Nat.lt_of_lt_of_le hid h.length_le
  exact ⟨fun entry hentry => hgrows _ (hheld.1 entry hentry),
    fun entry hentry => hgrows _ (hheld.2 entry hentry)⟩

theorem moduleOf_of_extends {before after : ContractBook} (h : before.Extends after)
    (hheld : SourcesHeld sources before) (decl : ClassDecl) :
    path.moduleOf sources after decl = path.moduleOf sources before decl := by
  have hcontracts : ∀ id ∈ hostedBy sources.hosting.contracts decl.name ++
      (sources.configured.lookup decl.name).toList,
      after.contracts.get? id = before.contracts.get? id := by
    intro id hid
    refine get?_of_extends h ?_
    rcases List.mem_append.1 hid with hid | hid
    · exact hheld.1 _ (mem_of_mem_hostedBy hid)
    · exact hheld.2 _ (mem_of_lookup (Option.mem_toList.1 hid))
  simp only [moduleOf, moduleKeys, List.filterMap_congr hcontracts]

theorem Reads.mono {before after : ContractBook} (h : before.Extends after)
    (hheld : SourcesHeld sources before) {name : ClassName} {read : Module × List DeclaredImport}
    (hread : path.Reads sources before name read) : path.Reads sources after name read := by
  obtain ⟨decl, hdecl, hmodule, himports⟩ := hread
  refine ⟨decl, hdecl, ?_, himports.imp fun _ _ hdenotes => hdenotes.mono h⟩
  rw [hmodule, moduleOf_of_extends h hheld]

theorem accounts_readModule (hlooks : keeping.Looks path sources.project)
    (hgathers : path.Gathers sources) {name : ClassName}
    {decl : ClassDecl} (hdecl : path.find? name = some decl) {book : ContractBook}
    (hbook : keeping.Sound book) :
    keeping.Accounts book (path.moduleToll keeping decl)
      (fun after => path.Reads sources after name) (path.readModule sources decl) := by
  unfold readModule moduleToll
  cases hplain : decl.typeParameters.isEmpty with
  | false =>
      rw [← add_zero (Toll.reporting 1)]
      refine .bindReport hbook (.pure hbook ⟨decl, hdecl, ?_, ?_⟩)
      · simp [moduleOf, hplain]
      · simp [declaredImports, hplain]
  | true =>
      refine .bindQuiet rfl hbook ?_
      refine (accounts_readImports hlooks hgathers.importedBy hplain hbook).bind
        fun imports between _ hbetween himports => ?_
      rw [← add_zero (Toll.reporting _)]
      rw [hgathers.points]
      refine .bindLogged rfl hbetween.sound (.bindGet ?_)
      refine .pure hbetween.sound ⟨decl, hdecl, ?_, himports⟩
      simp [moduleOf, hplain]

/-! ## All modules -/

def namedModuleToll (path : ClassPath) (keeping : Bookkeeping) (name : ClassName) : Toll :=
  (path.find? name).elim 0 (path.moduleToll keeping)

theorem imported_of_reads {book : ContractBook} {name imported : ClassName}
    {read : Module × List DeclaredImport} (h : path.Reads sources book name read)
    (himported : imported ∈ read.2.filterMap DeclaredImport.module?) :
    ∃ module ∈ path.moduleDecls, module.name = imported := by
  obtain ⟨decl, -, -, himports⟩ := h
  obtain ⟨declared, hdeclared, hmodule⟩ := List.mem_filterMap.1 himported
  obtain ⟨named, hnamed, hdenotes⟩ := exists_left_of_forall₂ himports hdeclared
  cases hdenotes with
  | module name site wrapped =>
      cases hmodule
      exact mem_moduleDecls_of_mem_declaredImports hnamed
  | contract site wrapped hname => cases hmodule

theorem unseen_of_dropWhile {known : UnlinkedModules} {queue rest : List ClassName}
    {name : ClassName} (h : queue.dropWhile (· ∈ known.keys) = name :: rest) :
    unseen known.keys queue = name :: unseen (known.keys ++ [name]) rest := by
  rw [← SearchSpace.unseen_dropWhile, h,
    SearchSpace.unseen_cons_of_not_mem (not_mem_keys_of_dropWhile h)]

theorem reads_of_find?_insert {before after : ContractBook} (h : before.Extends after)
    (hheld : SourcesHeld sources before) {known : UnlinkedModules}
    (hknown : ∀ name read, known.find? name = some read → path.Reads sources before name read)
    {name other : ClassName} {read held : Module × List DeclaredImport}
    (hread : path.Reads sources after name read)
    (hfound : (known.insert name read).find? other = some held) :
    path.Reads sources after other held := by
  rw [Table.find?_insert] at hfound
  split at hfound
  · next heq =>
      cases hfound
      rw [heq]
      exact hread
  · exact (hknown other held hfound).mono h hheld

/-- The queue never gets longer by a module that is not in it already: all modules are known or
queued from the start. -/
theorem accounts_readModulesFrom (hlooks : keeping.Looks path sources.project)
    (hgathers : path.Gathers sources) {known : UnlinkedModules}
    {queue : List ClassName} (hqueue : ∀ name ∈ queue, (path.find? name).isSome)
    (hmodules : ∀ decl ∈ path.moduleDecls, decl.name ∈ known.keys ∨ decl.name ∈ queue)
    {book : ContractBook} (hheld : SourcesHeld sources book)
    (hknown : ∀ name read, known.find? name = some read → path.Reads sources book name read)
    (hbook : keeping.Sound book) :
    keeping.Accounts book
      ((unseen known.keys queue).map (path.namedModuleToll keeping)).sum
      (fun after modules => modules.keys = known.keys ++ unseen known.keys queue ∧
        ∀ name read, modules.find? name = some read → path.Reads sources after name read)
      (path.readModulesFrom sources known queue) := by
  fun_induction path.readModulesFrom sources known queue generalizing book with
  | case1 known queue hnext =>
      have hnone : unseen known.keys queue = [] := by
        rw [← SearchSpace.unseen_dropWhile, hnext]
        rfl
      rw [hnone]
      exact .pure hbook ⟨(List.append_nil _).symm, hknown⟩
  | case2 known queue name rest hnext hunknown =>
      have hmem : name ∈ queue := (List.dropWhile_sublist _).subset (hnext ▸ List.mem_cons_self ..)
      have hsome := hqueue name hmem
      rw [hunknown] at hsome
      cases hsome
  | case3 known queue name rest hnext decl hdecl ih =>
      have hnew := not_mem_keys_of_dropWhile hnext
      have htoll : path.namedModuleToll keeping name = path.moduleToll keeping decl := by
        rw [namedModuleToll, hdecl]
        rfl
      rw [unseen_of_dropWhile hnext, List.map_cons, List.sum_cons, htoll]
      refine (accounts_readModule hlooks hgathers hdecl hbook).bind
        fun read between _ hbetween hread => ?_
      have hkeys : (known.insert name read).keys = known.keys ++ [name] := by
        rw [Table.keys_insert, if_neg hnew]
      -- A marked module that was still ahead is known now, or is behind `name` in the queue.
      have hqueued : ∀ decl ∈ path.moduleDecls,
          decl.name ∈ (known.insert name read).keys ∨ decl.name ∈ rest := by
        intro module hmodule
        rw [hkeys, List.mem_append, List.mem_singleton, or_assoc]
        rcases hmodules module hmodule with hold | hmem
        · exact .inl hold
        · exact SearchSpace.mem_of_dropWhile_eq_cons hnext hmem
      have himports : ∀ imported ∈ read.2.filterMap DeclaredImport.module?,
          ∃ module ∈ path.moduleDecls, module.name = imported :=
        fun imported himported => imported_of_reads hread himported
      -- What `name` imports is such a module, so that the queue has nothing new for the later
      -- steps.
      have hrest : unseen (known.insert name read).keys
          (rest ++ read.2.filterMap DeclaredImport.module?) =
            unseen (known.keys ++ [name]) rest := by
        rw [← hkeys]
        refine SearchSpace.unseen_append_of_subset fun imported himported => ?_
        obtain ⟨module, hmodule, rfl⟩ := himports imported himported
        exact hqueued module hmodule
      have hgoal := ih read ?_ ?_ (hheld.mono hbetween.extended) ?_ hbetween.sound
      · rw [hrest, hkeys] at hgoal
        refine hgoal.mono fun after modules _ hmodules => ?_
        rw [List.append_assoc] at hmodules
        exact hmodules
      · intro other hother
        rcases List.mem_append.1 hother with hmem | himported
        · refine hqueue other ((List.dropWhile_sublist (· ∈ known.keys)).subset ?_)
          rw [hnext]
          exact List.mem_cons_of_mem _ hmem
        · obtain ⟨module, hmodule, rfl⟩ := himports other himported
          rw [find?_of_mem_decls (List.mem_filter.1 hmodule).1]
          rfl
      · exact fun module hmodule => (hqueued module hmodule).imp_right (List.mem_append_left _)
      · exact fun other held => reads_of_find?_insert hbetween.extended hheld hknown hread

theorem accounts_readModules (hlooks : keeping.Looks path sources.project)
    (hgathers : path.Gathers sources) {roots : List ClassName}
    (hroots : ∀ name ∈ roots, (path.find? name).isSome)
    (hmodules : ∀ decl ∈ path.moduleDecls, decl.name ∈ roots)
    {book : ContractBook} (hheld : SourcesHeld sources book) (hbook : keeping.Sound book) :
    keeping.Accounts book ((unseen [] roots).map (path.namedModuleToll keeping)).sum
      (fun after modules => ∃ known, modules = linkModules known ∧ known.keys = unseen [] roots ∧
        ∀ name read, known.find? name = some read → path.Reads sources after name read)
      (path.readModules sources roots) := by
  rw [← add_zero (List.sum _)]
  have hnone : ∀ name read, (∅ : UnlinkedModules).find? name = some read →
      path.Reads sources book name read := fun name read h => by cases h
  refine (accounts_readModulesFrom hlooks hgathers hroots
    (fun decl hdecl => .inr (hmodules decl hdecl)) hheld hnone hbook).bind
    fun known after _ hafter hknown => ?_
  exact .pure hafter.sound ⟨known, rfl, hknown⟩

end ClassPath

end InjectionCompiler
