import InjectionCompiler.Proofs.Roots

/-!
# The graph that is read

A graph that is read shows the classes of its path: every entity of the graph, and everything that
one entity refers to in another, is told by what the classes declare.
-/

namespace InjectionCompiler

open SearchSpace (unseen)

namespace ClassPath

variable {path : ClassPath} {keeping : Bookkeeping} {project : String}

def contractDecls (path : ClassPath) : List ClassDecl :=
  path.decls.filter (·.isAnnotated Vocabulary.contract)

def sourcesOf (path : ClassPath) (project : String) (factories : Arena .factory Factory)
    (marked : Arena .contract Contract) (configured : List (ClassName × Id .contract)) :
    ModuleSources where
  project := project
  hosting := ⟨path.importedBy, path.hosted path.providedNames,
    path.hostedIds Factory.name factories, path.hostedIds Contract.name marked⟩
  bindings := path.readBindings.value
  providable := path.readTargets.value.providable
  factories := factories
  configured := configured

/-- The graph shows the path.  `marked` is the book with the marked contracts only, `book` that of
all contracts, and `configured` has the contracts of the configurations. -/
structure Portrays (path : ClassPath) (project : String) (marked book : ContractBook)
    (configured : List (ClassName × Id .contract)) (graph : ObjectGraph) : Prop where
  contracts : graph.contracts = book.contracts
  contracts_named : book.Named
  marked_extended : marked.Extends book
  marked_names : marked.contracts.names.Perm (path.contractDecls.map ClassDecl.name)
  serves : List.Forall₂ book.Serves path.configurations configured
  factories : graph.factories.table.entries = path.factories.map fun f => (f.name, f)
  factories_read : ∀ decl ∈ path.decls,
    (path.factoryOf? decl).isSome = decl.isAnnotated Vocabulary.factory
  modules : ∃ known, graph.modules = linkModules known ∧ known.keys = unseen [] path.rootNames ∧
    ∀ name read, known.find? name = some read → path.Reads
      (path.sourcesOf project graph.factories marked.contracts configured) book name read
  components : graph.components = path.componentNames.filterMap fun name =>
    (graph.modules.find? name).map fun id => ⟨name, id⟩
  configurations : graph.configurations = configured.filterMap fun (name, contract) =>
    (graph.modules.find? name).map fun id => ⟨name, contract, id⟩
  injectable : graph.injectable = path.readTargets.value.injectable
  providable : graph.providable = path.readTargets.value.providable
  bindings : graph.bindings = path.readBindings.value.all

def graphToll (path : ClassPath) (keeping : Bookkeeping) : Toll :=
  .reporting path.readTargets.faults.length + (.reporting path.readBindings.faults.length +
    ((path.decls.map (path.markedToll keeping)).sum +
      (path.hostingToll (path.factories.map Factory.name)
          (path.contractDecls.map ClassDecl.name) +
        ((path.decls.map (rootToll keeping)).sum +
          ((unseen [] path.rootNames).map (path.namedModuleToll keeping)).sum))))

theorem mem_asked_marked {name : ClassName} :
    name ∈ (path.decls.map (path.markedToll keeping)).sum.asked ↔
      name ∈ path.contractDecls.map ClassDecl.name := by
  have hdecl : ∀ decl, name ∈ (path.markedToll keeping decl).asked ↔
      decl.isAnnotated Vocabulary.contract ∧ name = decl.name := by
    intro decl
    unfold markedToll factoryToll contractToll
    split <;> split <;> simp_all [Work.toll, Bookkeeping.asking]
  rw [Toll.mem_asked_sum]
  constructor
  · rintro ⟨toll, htoll, hasked⟩
    obtain ⟨decl, hmem, rfl⟩ := List.mem_map.1 htoll
    obtain ⟨hmark, rfl⟩ := (hdecl decl).1 hasked
    exact List.mem_map_of_mem (List.mem_filter.2 ⟨hmem, hmark⟩)
  · intro h
    obtain ⟨decl, hmem, rfl⟩ := List.mem_map.1 h
    obtain ⟨hdecls, hmark⟩ := List.mem_filter.1 hmem
    exact ⟨_, List.mem_map_of_mem hdecls, (hdecl decl).2 ⟨hmark, rfl⟩⟩

theorem names_of_marked {book : ContractBook} {count : Nat}
    (h : keeping.Advances (path.decls.map (path.markedToll keeping)).sum ∅ book count) :
    book.contracts.names.Perm (path.contractDecls.map ClassDecl.name) := by
  refine (List.perm_ext_iff_of_nodup book.contracts.table.distinct
    (path.nodup_decls.sublist (List.filter_sublist.map _))).2 fun name => ?_
  have hnames := h.mem_names_iff name
  rw [mem_asked_marked] at hnames
  exact hnames.trans (or_iff_right List.not_mem_nil)

theorem mem_decls_of_mem_rootNames {name : ClassName} (h : name ∈ path.rootNames) :
    ∃ decl ∈ path.decls, decl.name = name := by
  rcases List.mem_append.1 h with h | h
  · rcases List.mem_append.1 h with h | h
    · obtain ⟨decl, hdecl, hname⟩ := List.mem_filterMap.1 h
      unfold component? at hname
      split at hname
      · exact ⟨decl, hdecl, Option.some.inj hname⟩
      · cases hname
    · obtain ⟨entry, hentry, rfl⟩ := List.mem_map.1 h
      obtain ⟨decl, hdecl, hconfigured⟩ := List.mem_filterMap.1 hentry
      unfold configuration? at hconfigured
      split at hconfigured
      · obtain ⟨contract, -, rfl⟩ := Option.map_eq_some_iff.1 hconfigured
        exact ⟨decl, hdecl, rfl⟩
      · cases hconfigured
  · obtain ⟨decl, hdecl, rfl⟩ := List.mem_map.1 h
    exact ⟨decl, (List.mem_filter.1 hdecl).1, rfl⟩

theorem isSome_of_mem_rootNames {name : ClassName} (h : name ∈ path.rootNames) :
    (path.find? name).isSome := by
  obtain ⟨decl, hdecl, rfl⟩ := mem_decls_of_mem_rootNames h
  rw [find?_of_mem_decls hdecl]
  rfl

theorem accounts_readHosting {factories : Arena .factory Factory} {book : ContractBook}
    (hbook : keeping.Sound book)
    (hfactories : factories.table.entries = path.factories.map fun f => (f.name, f))
    (hcontracts : book.contracts.names.Perm (path.contractDecls.map ClassDecl.name)) :
    keeping.Accounts book
      (path.hostingToll (path.factories.map Factory.name) (path.contractDecls.map ClassDecl.name))
      (fun _ hosting => hosting = ⟨path.importedBy, path.hosted path.providedNames,
        path.hostedIds Factory.name factories, path.hostedIds Contract.name book.contracts⟩)
      (liftM (path.readHosting path.readTargets.value.providable factories book.contracts)) := by
  have hitems : factories.items.map Factory.name = path.factories.map Factory.name := by
    rw [Arena.items, Table.values, hfactories, List.map_map, List.map_map]
    rfl
  have htoll := path.hostingToll_perm (path.factories.map Factory.name) hcontracts
  rw [← htoll, ← hitems, ← (keeping.named_of_sound _ hbook).map_items]
  exact .work (path.readHosting_pays factories book.contracts) (asked_hostingToll ..) hbook
    fun _ => id

theorem names_of_serves {book : ContractBook} {configured : List (ClassName × Id .contract)}
    (h : List.Forall₂ book.Serves path.configurations configured) :
    configured.map Prod.fst = path.configurations.map Prod.fst := by
  have hnames : List.Forall₂ (fun declared name => name = declared.1) path.configurations
      (configured.map Prod.fst) :=
    List.forall₂_map_right_iff.2 (h.imp fun _ _ hserves => hserves.1)
  exact eq_map_of_forall₂ hnames

theorem held_of_nameOf? {book : ContractBook} {id : Id .contract} {name : ClassName}
    (h : book.contracts.nameOf? id = some name) : book.Holds id := by
  have hlength := (List.getElem?_eq_some_iff.1 h).1
  rwa [Arena.length_keys] at hlength

theorem sourcesHeld_sourcesOf {factories : Arena .factory Factory} {marked book : ContractBook}
    {configured : List (ClassName × Id .contract)} (hextends : marked.Extends book)
    (hserves : List.Forall₂ book.Serves path.configurations configured) :
    SourcesHeld (path.sourcesOf project factories marked.contracts configured) book := by
  constructor
  · intro entry hentry
    obtain ⟨⟨id, contract⟩, hmem, hhost⟩ := List.mem_flatMap.1 hentry
    obtain ⟨host, -, rfl⟩ := List.mem_map.1 hhost
    have hheld := Arena.exists_get?_iff.1 ⟨_, Arena.get?_of_mem_entries hmem⟩
    exact Nat.lt_of_lt_of_le hheld hextends.length_le
  · intro entry hentry
    obtain ⟨declared, -, hserved⟩ := exists_left_of_forall₂ hserves hentry
    exact held_of_nameOf? hserved.2

/-- Reading a path ends in a graph that portrays it, at the toll of all its classes. -/
theorem accounts_readGraphFrom (hlooks : keeping.Looks path project) :
    keeping.Accounts ∅ (path.graphToll keeping)
      (fun book graph => ∃ marked configured, path.Portrays project marked book configured graph)
      (path.readGraphFrom project) := by
  unfold readGraphFrom graphToll
  refine .bindQuiet rfl keeping.sound_empty ?_
  refine .bindLogged rfl keeping.sound_empty (.bindLogged rfl keeping.sound_empty ?_)
  refine (accounts_readMarkedClasses hlooks keeping.sound_empty).bind
    fun marked middle _ hmiddle hmarked => .bindGet ?_
  obtain ⟨hfactories, hmodules, hread⟩ := hmarked
  have hnames := names_of_marked hmiddle
  refine (accounts_readHosting hmiddle.sound hfactories hnames).bind
    fun hosting between _ hbetween hhosting => ?_
  subst hhosting
  refine (accounts_readRoots hlooks hbetween.sound).bind fun found late _ hlate hfound => ?_
  obtain ⟨hcomponents, hserves⟩ := hfound
  -- Modules are read from the components, the configurations and the marked modules, in this order.
  have hroots : found.components ++ found.configurations.map Prod.fst ++ marked.modules =
      path.rootNames := by
    rw [hcomponents, names_of_serves hserves, hmodules]
    rfl
  have hextends := hbetween.extended.trans hlate.extended
  have hloads := accounts_readModules
    (show keeping.Looks path (path.sourcesOf project marked.factories middle.contracts
      found.configurations).project from hlooks) ⟨rfl, rfl, rfl⟩
    (fun _ => isSome_of_mem_rootNames)
    (fun decl hdecl => List.mem_append_right _ (List.mem_map_of_mem hdecl))
    (sourcesHeld_sourcesOf hextends hserves) hlate.sound
  rw [hroots, ← add_zero (List.sum (List.map (path.namedModuleToll keeping) _))]
  refine hloads.bind fun modules after _ hafter hknown => ?_
  refine .bindGet (.bindQuiet rfl hafter.sound (.bindQuiet rfl hafter.sound ?_))
  refine .pure hafter.sound ⟨middle, found.configurations, ?_⟩
  exact {
    contracts := rfl
    contracts_named := keeping.named_of_sound _ hafter.sound
    marked_extended := hextends.trans hafter.extended
    marked_names := hnames
    serves := hserves.imp fun _ _ hserved => hserved.mono hafter.extended
    factories := hfactories
    factories_read := hread
    modules := hknown
    components := by rw [← hcomponents]
    configurations := rfl
    injectable := rfl
    providable := rfl
    bindings := rfl }

theorem settles_readGraph (hlooks : keeping.Looks path project) :
    (path.readGraph project).Settles keeping.strict (path.graphToll keeping).fine
      fun graph count => ∃ marked book configured,
        path.Portrays project marked book configured graph ∧
          keeping.Advances (path.graphToll keeping) ∅ book count := by
  unfold readGraph
  rw [← and_true (path.graphToll keeping).fine]
  refine Work.Settles.bind (accounts_readGraphFrom hlooks) fun ended count _ hended => .pure ?_
  obtain ⟨hadvances, marked, configured, hportrays⟩ := hended
  exact ⟨marked, ended.2, configured, hportrays, hadvances⟩

/-! ## Without an account of the contracts -/

def loose : Bookkeeping where
  Sound := ContractBook.Named
  Readable _ := True
  spent _ := 0
  strict := False
  sound_empty := Arena.named_empty _
  named_of_sound _ := id

theorem run_readContract_of_find? {book : ContractBook} {name : ClassName} {id : Id .contract}
    (h : book.contracts.find? name = some id) :
    (path.readContract project name).run book = pure (id, book) := by
  unfold readContract
  simp only [StateT.run_bind, StateT.run_get, pure_bind, h]
  rfl

theorem accounts_readContract_of_find? {book : ContractBook} {name : ClassName} {id : Id .contract}
    (hbook : keeping.Sound book) (hfind : book.contracts.find? name = some id)
    (hreadable : keeping.strict → keeping.Readable name) :
    keeping.Accounts book (keeping.asking name)
      (fun after id => after.contracts.nameOf? id = some name)
      (path.readContract project name) := by
  have hid := Arena.nameOf?_of_find? hfind
  rw [Bookkeeping.Accounts, run_readContract_of_find? hfind]
  refine ⟨⟨⟨hbook, List.prefix_refl _, fun other => ?_, Nat.zero_le _, fun _ => rfl⟩, hid⟩,
    hreadable⟩
  exact (or_iff_left_of_imp fun heq => heq ▸ List.mem_of_getElem? hid).symm

theorem loose_looks (path : ClassPath) (project : String) : loose.Looks path project := by
  intro name book hbook
  cases hfind : book.contracts.find? name with
  | some id => exact accounts_readContract_of_find? hbook hfind False.elim
  | none =>
      refine .of_success fun ⟨id, after⟩ h => ?_
      rcases readContract_spec h with ⟨hfound, -⟩ | ⟨contract, hname, -, hinsert, -⟩
      · rw [hfind] at hfound
        cases hfound
      · have hnamed := keepsNamed_readContract name _ _ _ hbook h
        have hentries : after.contracts.table.entries =
            book.contracts.table.entries ++ [(name, contract)] := by
          rw [← Arena.insert_of_find?_eq_none hfind contract, hinsert]
        refine ⟨⟨hnamed, ⟨_, hentries.symm⟩, fun other => ?_, Nat.zero_le _, False.elim⟩, ?_⟩
        · rw [Arena.names, Table.keys, hentries, List.map_append, List.mem_append]
          exact or_congr_right List.mem_singleton
        · have hfirst := book.contracts.find?_insert_self name contract
          rw [hinsert] at hfirst
          exact Arena.nameOf?_of_find? hfirst

/-- A graph that was read shows its path, and no fault of the classes was kept quiet. -/
theorem portrays_of_readGraph {graph : ObjectGraph}
    (h : (path.readGraph project).result = .ok graph) :
    ∃ marked book configured, path.Portrays project marked book configured graph ∧
      (path.graphToll loose).faults ≤ (path.readGraph project).faultCount := by
  obtain ⟨marked, book, configured, hportrays, hadvances⟩ :=
    ((settles_readGraph (loose_looks path project)).of_ok h).1
  exact ⟨marked, book, configured, hportrays, hadvances.faults_le⟩

end ClassPath

end InjectionCompiler
