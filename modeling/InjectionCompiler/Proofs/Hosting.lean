import InjectionCompiler.ObjectGraph.Discovery
import InjectionCompiler.Proofs.Imports

/-!
# Declared hosts

A module lists the containers that import it, and a class, a factory or a contract lists the
containers that host it.  Each entry is either accepted or reported, and an empty list is a fault.
-/

namespace InjectionCompiler

namespace ClassPath

variable {path : ClassPath}

/-! ## Lists of containers -/

def listFaults (path : ClassPath) (hosted : ClassName) : Option (List Literal) → Nat
  | none => 0
  | some [] => 1
  | some entries => entries.countP fun entry => (path.container? hosted entry).isNone

theorem container?_eq_some {hosted container : ClassName} {entry : Literal}
    (h : path.container? hosted entry = some container) :
    entry = .type (.object container) ∧ path.isContainer container := by
  unfold container? at h
  split at h
  · split at h
    · next haccepted =>
        cases h
        exact ⟨rfl, (Bool.and_eq_true _ _ ▸ haccepted).1⟩
    · cases h
  · cases h

theorem container?_of_listFaults {hosted : ClassName} {entries : List Literal}
    (h : path.listFaults hosted (some entries) = 0) {entry : Literal} (hentry : entry ∈ entries) :
    ∃ container, path.container? hosted entry = some container := by
  cases entries with
  | nil => cases hentry
  | cons first rest =>
      have hsome := List.countP_eq_zero.1 h entry hentry
      exact Option.isSome_iff_exists.1 (by simpa [Option.isSome_iff_ne_none] using hsome)

theorem readImporter_spec (module : ClassName) (entry : Literal) :
    (path.readImporter module entry).value = path.container? module entry ∧
      (path.readImporter module entry).faults.length =
        (path.container? module entry).isNone.toNat := by
  cases entry with
  | type descriptor =>
      cases descriptor with
      | object importer =>
          dsimp only [readImporter, container?]
          cases path.isContainer importer <;> cases path.isForeignHost module importer <;>
            exact ⟨rfl, rfl⟩
      | _ => exact ⟨rfl, rfl⟩
  | _ => exact ⟨rfl, rfl⟩

theorem readHost_spec (name : ClassName) (entry : Literal) :
    (path.readHost name entry).value = path.container? name entry ∧
      (path.readHost name entry).faults.length = (path.container? name entry).isNone.toNat := by
  cases entry with
  | type descriptor =>
      cases descriptor with
      | object container =>
          dsimp only [readHost, container?]
          cases path.isContainer container <;> cases path.isForeignHost name container <;>
            exact ⟨rfl, rfl⟩
      | _ => exact ⟨rfl, rfl⟩
  | _ => exact ⟨rfl, rfl⟩

theorem mapM_container {hosted : ClassName} {read : Literal → Logged (Option ClassName)}
    (hread : ∀ entry, (read entry).value = path.container? hosted entry ∧
      (read entry).faults.length = (path.container? hosted entry).isNone.toNat)
    (entries : List Literal) :
    (entries.mapM read).value.filterMap id = path.containers hosted (some entries) ∧
      (entries.mapM read).faults.length =
        entries.countP fun entry => (path.container? hosted entry).isNone := by
  constructor
  · simp only [Logged.value_mapM, containers, Option.getD_some, List.filterMap_map, hread]
    rfl
  · rw [Logged.faults_mapM]
    induction entries with
    | nil => rfl
    | cons entry entries ih =>
        rw [List.flatMap_cons, List.length_append, ih, List.countP_cons, (hread entry).2,
          Nat.add_comm]
        cases (path.container? hosted entry).isNone <;> rfl

theorem readImporters_spec (decl : ClassDecl) :
    (path.readImporters decl).value = path.importers decl ∧
      (path.readImporters decl).faults.length =
        path.listFaults decl.name (annotationList? decl.annotations Vocabulary.importedBy) := by
  unfold readImporters importers
  cases annotationList? decl.annotations Vocabulary.importedBy with
  | none => exact ⟨rfl, rfl⟩
  | some entries =>
      cases entries with
      | nil => exact ⟨rfl, rfl⟩
      | cons first rest =>
          obtain ⟨hvalue, hfaults⟩ := mapM_container (readImporter_spec decl.name) (first :: rest)
          refine ⟨hvalue, ?_⟩
          simp only [Logged.faults_bind, Logged.faults_pure, List.append_nil]
          exact hfaults

/-! ## Hosts -/

def hostList? (path : ClassPath) (name : ClassName) : Option (List Literal) :=
  (path.find? name).bind fun decl => annotationList? decl.annotations Vocabulary.providedBy

def hosts (path : ClassPath) (name : ClassName) : List ClassName :=
  path.containers name (path.hostList? name)

def hosted (path : ClassPath) (names : List ClassName) : List (ClassName × ClassName) :=
  names.flatMap fun name => (path.hosts name).map fun host => (host, name)

def hostToll (path : ClassPath) (name : ClassName) : Toll :=
  match path.find? name with
  | none => ⟨False, 0, ∅⟩
  | some _ => .reporting (path.listFaults name (path.hostList? name))

theorem readHosts_pays (name : ClassName) :
    (path.readHosts name).Pays (path.hostToll name) (· = path.hosts name) := by
  unfold readHosts hostToll hosts hostList?
  cases hdecl : path.find? name with
  | none => exact .throw name 0 ∅
  | some decl =>
      rw [Option.bind_some]
      dsimp only
      cases hlist : annotationList? decl.annotations Vocabulary.providedBy with
      | none => exact .pure rfl
      | some entries =>
          rw [← add_zero (Toll.reporting _)]
          cases entries with
          | nil => exact .bindLogged rfl (.pure rfl)
          | cons first rest =>
              obtain ⟨hvalue, hfaults⟩ := mapM_container (readHost_spec name) (first :: rest)
              dsimp only
              rw [mapM_liftM (path.readHost name)]
              exact .bindLogged hfaults (.pure hvalue)

theorem readHosted_pays {α : Type} (entities : List (ClassName × α)) :
    (path.readHosted entities).Pays (entities.map fun entity => path.hostToll entity.1).sum
      (· = entities.flatMap fun entity =>
        (path.hosts entity.1).map fun host => (host, entity.2)) := by
  have heach : ∀ entity ∈ entities, (do
      let hosts ← path.readHosts entity.1
      return hosts.map fun host => (host, entity.2) : Work (List (ClassName × α))).Pays
        (path.hostToll entity.1)
        (· = (path.hosts entity.1).map fun host => (host, entity.2)) := by
    intro entity _
    rw [← add_zero (path.hostToll entity.1)]
    exact (readHosts_pays entity.1).bind fun hosts hhosts => .pure (by rw [hhosts])
  unfold readHosted
  rw [← add_zero (List.sum _)]
  refine (Work.Pays.mapM_eq heach).bind fun hosted hhosted => .pure ?_
  rw [hhosted, List.flatMap_def]

/-! ## All hosting -/

def providedNames (path : ClassPath) : List ClassName :=
  path.readTargets.value.providable.map InjectionTarget.name

def importersToll (path : ClassPath) (decl : ClassDecl) : Toll :=
  .reporting (path.listFaults decl.name (annotationList? decl.annotations Vocabulary.importedBy))

def hostingToll (path : ClassPath) (factories contracts : List ClassName) : Toll :=
  (path.moduleDecls.map path.importersToll).sum + ((path.providedNames.map path.hostToll).sum +
    ((factories.map path.hostToll).sum + (contracts.map path.hostToll).sum))

def hostedIds {entity : Entity} {α : Type} (path : ClassPath) (nameOf : α → ClassName)
    (arena : Arena entity α) : List (ClassName × Id entity) :=
  arena.entries.flatMap fun entry => (path.hosts (nameOf entry.2)).map fun host => (host, entry.1)

theorem items_of_entries {entity : Entity} {α : Type} (arena : Arena entity α) :
    arena.entries.map Prod.snd = arena.items := by
  refine List.map_snd_zip ?_
  simp [Arena.ids, Arena.items, Arena.size, Table.size, Table.values]

theorem readHosted_arena_pays {entity : Entity} {α : Type} (nameOf : α → ClassName)
    (arena : Arena entity α) :
    (path.readHosted (arena.entries.map fun entry => (nameOf entry.2, entry.1))).Pays
      ((arena.items.map nameOf).map path.hostToll).sum (· = path.hostedIds nameOf arena) := by
  have hpays := path.readHosted_pays (arena.entries.map fun entry => (nameOf entry.2, entry.1))
  rw [List.map_map, List.flatMap_map] at hpays
  rw [← items_of_entries, List.map_map, List.map_map]
  exact hpays

theorem readHosted_providable_pays :
    (path.readHosted (path.readTargets.value.providable.map fun target =>
      (target.name, target.name))).Pays
      (path.providedNames.map path.hostToll).sum (· = path.hosted path.providedNames) := by
  have hpays := path.readHosted_pays
    (path.readTargets.value.providable.map fun target => (target.name, target.name))
  rw [List.map_map, List.flatMap_map] at hpays
  rw [providedNames, List.map_map, hosted, List.flatMap_map]
  exact hpays

theorem readHosting_pays (factories : Arena .factory Factory)
    (contracts : Arena .contract Contract) :
    (path.readHosting path.readTargets.value.providable factories contracts).Pays
      (path.hostingToll (factories.items.map Factory.name) (contracts.items.map Contract.name))
      (· = ⟨path.importedBy, path.hosted path.providedNames, path.hostedIds Factory.name factories,
        path.hostedIds Contract.name contracts⟩) := by
  have hmodule : ∀ decl ∈ path.moduleDecls, (do
      let importers ← path.readImporters decl
      return importers.map fun importer => (importer, decl.name) :
        Work (List (ClassName × ClassName))).Pays (path.importersToll decl)
        (· = (path.importers decl).map fun importer => (importer, decl.name)) := by
    intro decl _
    obtain ⟨hvalue, hfaults⟩ := path.readImporters_spec decl
    rw [← add_zero (path.importersToll decl)]
    exact .bindLogged hfaults (.pure (by rw [hvalue]))
  unfold readHosting hostingToll
  refine (Work.Pays.mapM_eq hmodule).bind fun importedBy himportedBy => ?_
  refine readHosted_providable_pays.bind fun targets htargets => ?_
  refine (readHosted_arena_pays Factory.name factories).bind fun hostedFactories hfactories => ?_
  rw [← add_zero (List.map path.hostToll (contracts.items.map Contract.name)).sum]
  refine (readHosted_arena_pays Contract.name contracts).bind fun hostedContracts hcontracts => ?_
  refine .pure ?_
  rw [himportedBy, htargets, hfactories, hcontracts, ← List.flatMap_def]
  rfl

theorem hostingToll_perm (path : ClassPath) (factories : List ClassName)
    {contracts others : List ClassName} (h : contracts.Perm others) :
    path.hostingToll factories contracts = path.hostingToll factories others := by
  rw [hostingToll, hostingToll, (h.map path.hostToll).sum_eq]

theorem asked_hostToll (name : ClassName) : (path.hostToll name).asked = ∅ := by
  unfold hostToll
  split <;> rfl

theorem asked_hostingToll (factories contracts : List ClassName) :
    (path.hostingToll factories contracts).asked = ∅ := by
  have hhosts : ∀ names : List ClassName, (names.map path.hostToll).sum.asked = ∅ := by
    refine fun names => Toll.asked_sum_eq_empty fun toll htoll => ?_
    obtain ⟨name, -, rfl⟩ := List.mem_map.1 htoll
    exact asked_hostToll name
  have hmodules : (path.moduleDecls.map path.importersToll).sum.asked = ∅ := by
    refine Toll.asked_sum_eq_empty fun toll htoll => ?_
    obtain ⟨decl, -, rfl⟩ := List.mem_map.1 htoll
    rfl
  simp only [hostingToll, Toll.asked_add, hhosts, hmodules, Set.union_empty]

end ClassPath

end InjectionCompiler
