import InjectionCompiler.Proofs.InProgress
import InjectionCompiler.Proofs.MissingClasses
import InjectionCompiler.Proofs.Worklists

/-!
# How reading ends

Reading a class path comes to an end, whatever circles its classes form: with a graph, or at a class
that is referred to and not on the path.  On the way no interface is worked out twice, and no module
is parsed twice.
-/

namespace InjectionCompiler

open Relation (ReflTransGen)

namespace ClassPath

variable {path : ClassPath} {project : String}

/-! ## Hosts -/

theorem misses_readHosts (name : ClassName) : path.Misses (path.readHosts name) := by
  unfold readHosts
  split
  · split
    · exact .pure _
    · exact .bind (.logged _) fun _ => .pure _
    · exact .bind (.mapM fun _ _ => .logged _) fun _ => .pure _
  · next hunknown => exact .notFound hunknown

theorem misses_readHosted {α : Type} (entities : List (ClassName × α)) :
    path.Misses (path.readHosted entities) := by
  unfold readHosted
  refine .bind (.mapM fun entity _ => ?_) fun _ => .pure _
  exact .bind (misses_readHosts _) fun _ => .pure _

theorem misses_readHosting (providable : List InjectionTarget)
    (factories : Arena .factory Factory) (contracts : Arena .contract Contract) :
    path.Misses (path.readHosting providable factories contracts) := by
  unfold readHosting
  refine .bind (.mapM fun _ _ => .bind (.logged _) fun _ => .pure _) fun _ => ?_
  refine .bind (misses_readHosted _) fun _ => .bind (misses_readHosted _) fun _ => ?_
  exact .bind (misses_readHosted _) fun _ => .pure _

/-! ## Contracts -/

theorem Visits.exists_unknown {desk after : GetterDesk} {names : List ClassName}
    {outcome : Except Failure (List Getter)} {failure : Failure}
    (h : path.Visits desk names outcome after) (hfailure : outcome = .error failure) :
    ∃ name, path.find? name = none ∧ failure = .classNotFound name := by
  induction h with
  | nil => cases hfailure
  | unknown hunknown =>
      cases hfailure
      exact ⟨_, hunknown, rfl⟩
  | @answered _ _ _ _ _ _ outcome _ _ _ ih =>
      cases outcome <;> cases hfailure
      exact ih rfl
  | @computed _ _ _ _ _ _ _ outcome _ _ _ _ _ ih =>
      cases outcome <;> cases hfailure
      exact ih rfl
  | failed _ _ _ ih => exact ih hfailure

theorem misses_readGetters (trail : List ClassName) (name : ClassName) (known : GetterTable) :
    path.Misses (path.readGetters trail name known) := by
  intro failure h
  obtain ⟨outcome, after, hvisits⟩ := path.exists_visits ⟨known, trail, []⟩ [name]
  refine hvisits.exists_unknown ?_
  have hresult := hvisits.result_readAllGetters
  rw [readAllGetters, Work.result_bind,
    show (path.readGetters trail name known).result = .error failure from h] at hresult
  cases outcome <;> cases hresult
  rfl

theorem misses_readContract (name : ClassName) :
    path.Misses (path.readContract project name) := by
  unfold readContract
  refine .bind .get fun book => ?_
  split
  · exact .pure _
  · split
    · refine .bind (.bookLogged _) fun _ => .bind (.bookLogged _) fun _ => ?_
      refine .bind (.work (misses_readGetters _ _ _)) fun _ => ?_
      exact .bind (.set _) fun _ => .pure _
    · next hunknown => exact .bookNotFound hunknown

/-! ## Roots and modules -/

theorem misses_readMarked (decl : ClassDecl) : path.Misses (path.readMarked project decl) := by
  have hcontract : ∀ factory, path.Misses (do
      if decl.isAnnotated Vocabulary.contract then
        let _ ← path.readContract project decl.name
      return factory : BookWork (Option Factory)) := by
    intro factory
    dsimp only
    split
    · exact .bind (misses_readContract _) fun _ => .pure _
    · exact .pure _
  unfold readMarked
  dsimp only
  split
  · exact .bind (.work (misses_readFactory decl)) fun _ => .bind (.pure _) fun _ => hcontract _
  · exact .bind (.pure _) fun _ => hcontract _

theorem misses_readMarkedClasses : path.Misses (path.readMarkedClasses project) := by
  unfold readMarkedClasses
  exact .bind (.mapM fun decl _ => misses_readMarked decl) fun _ => .pure _

theorem misses_readConfiguration (decl : ClassDecl) :
    path.Misses (path.readConfiguration project decl) := by
  unfold readConfiguration
  split
  · exact .pure _
  · split
    · exact .bind (.bookLogged _) fun _ => .pure _
    · refine .bind (.bookLogged _) fun contract => ?_
      split
      · refine .bind (.bookLogged _) fun _ => ?_
        exact .bind (misses_readContract _) fun _ => .pure _
      · exact .pure _

theorem misses_readRoots : path.Misses (path.readRoots project) := by
  unfold readRoots
  refine .bind (.mapM fun decl _ => ?_) fun _ => .pure _
  refine .bind (.bookLogged _) fun _ => ?_
  exact .bind (misses_readConfiguration decl) fun _ => .pure _

theorem misses_readImport (annotations : List Annotation) (declared : Signature)
    (element : String) (site : ImportSite) :
    path.Misses (path.readImport project annotations declared element site) := by
  unfold readImport
  refine .bind (.bookLogged _) fun read => ?_
  dsimp only
  split
  · next name lazy =>
      split
      · exact .bind (misses_readContract _) fun _ => .pure _
      · split
        · refine .bind (.bookLogged _) fun _ => ?_
          split
          · split
            · exact .bind (.bookLogged _) fun _ => .pure _
            · exact .pure _
          · next hunknown => exact .bookNotFound hunknown
        · split
          · split
            · exact .bind (.bookLogged _) fun _ => .pure _
            · exact .pure _
          · next hunknown => exact .bookNotFound hunknown
  · exact .pure _

theorem misses_readMethodImport (owner : ClassName) (method : MethodDecl) :
    path.Misses (path.readMethodImport project owner method) := by
  unfold readMethodImport
  dsimp only
  split
  · exact .bind (.bookLogged _) fun _ => .pure _
  · split
    · exact .bind (.bookLogged _) fun _ => .pure _
    · exact .bind (.bookLogged _) fun _ => misses_readImport _ _ _ _

theorem misses_readFieldImport (owner : ClassName) (field : FieldDecl) :
    path.Misses (path.readFieldImport project owner field) := by
  unfold readFieldImport
  exact .bind (.bookLogged _) fun _ => misses_readImport _ _ _ _

variable (sources : ModuleSources)

theorem misses_readModule (decl : ClassDecl) : path.Misses (path.readModule sources decl) := by
  have himports : path.Misses (path.readImports sources decl) := by
    unfold readImports
    refine .bind (.mapM fun method _ => misses_readMethodImport _ method) fun _ => ?_
    refine .bind (.mapM fun field _ => misses_readFieldImport _ field) fun _ => ?_
    exact .bind (.mapM fun importee _ => .bookLogged _) fun _ => .pure _
  unfold readModule
  dsimp only
  split
  · exact .bind (.bookLogged _) fun _ => .pure _
  · refine .bind (.bookLogged _) fun _ => .bind himports fun _ => ?_
    exact .bind (.bookLogged _) fun _ => .bind .get fun _ => .pure _

theorem misses_readModules (roots : List ClassName) :
    path.Misses (path.readModules sources roots) := by
  refine .bind ?_ fun _ => .pure _
  generalize (∅ : UnlinkedModules) = known
  fun_induction path.readModulesFrom sources known roots with
  | case1 => exact .pure _
  | case2 known queue name rest hqueue hunknown => exact .bookNotFound (by simp [hunknown])
  | case3 known queue name rest hqueue decl hdecl ih =>
      exact .bind (misses_readModule sources decl) ih

theorem misses_readGraph (project : String) : path.Misses (path.readGraph project) := by
  have hfrom : path.Misses (path.readGraphFrom project) := by
    unfold readGraphFrom
    refine .bind (.bookLogged _) fun _ => .bind (.bookLogged _) fun targets => ?_
    refine .bind (.bookLogged _) fun bindings => .bind misses_readMarkedClasses fun marked => ?_
    refine .bind .get fun book => .bind (.work (misses_readHosting _ _ _)) fun hosting => ?_
    refine .bind misses_readRoots fun roots => .bind (misses_readModules _ _) fun modules => ?_
    refine .bind .get fun book => .bind (.bookLogged _) fun _ => ?_
    exact .bind (.bookLogged _) fun _ => .pure _
  unfold readGraph
  exact .bind (fun failure h => hfrom failure ⟨∅, h⟩) fun _ => .pure _

/-! ## Reading a class path -/

/-- Reading ends, and each piece of work is done once. -/
structure WorksOnce (path : ClassPath) (project : String) : Prop where
  ends : (∃ graph, (path.readGraph project).result = .ok graph) ∨
    ∃ name, path.find? name = none ∧ (path.readGraph project).result = .error (.classNotFound name)
  ancestors_end : WellFounded fun after before => path.hierarchy.Takes before after
  ancestors_found : ∀ name,
    ReflTransGen path.hierarchy.Takes ([], [name]) (path.ancestors name, [])
  getters_end : ∀ desk names, ∃! done : Except Failure (List Getter) × GetterDesk,
    path.Visits desk names done.1 done.2
  getters_read : ∀ desk names outcome after, path.Visits desk names outcome after →
    (readAllGetters (path.readGetters desk.inProgress) names desk.known).result =
      outcome.map fun getters => (getters, after.known)
  getters_restore : ∀ desk names getters after, path.Visits desk names (.ok getters) after →
    after.inProgress = desk.inProgress
  getters_once : ∀ desk names outcome after, desk.Sound → path.Visits desk names outcome after →
    after.Sound
  /-- All that reading tells is what the work on the interfaces begun on the way tells, each of them
  worked out once at most. -/
  getters_told : ∀ desk names outcome after, path.Visits desk names outcome after →
    ∃ (fresh : List ClassName) (worked : List (ClassDecl × List Getter)),
      after.begun = desk.begun ++ fresh ∧
      (worked.map fun item => item.1.name).Subperm fresh ∧
      (outcome.isOk = true → (worked.map fun item => item.1.name).Perm fresh) ∧
      (readAllGetters (path.readGetters desk.inProgress) names desk.known).events =
        worked.flatMap fun item => (path.workOut item.1 item.2).events
  modules_end : ∀ sources, WellFounded fun after before => path.ModuleStep sources before after
  /-- The steps give the result, and all that reading modules tells is what parsing them tells, each
  of them once. -/
  modules_read : ∀ sources roots book,
    ∃ (last : ModuleDesk) (parses : List (ClassDecl × ContractBook)),
      ReflTransGen (path.ModuleStep sources) (.start roots book) last ∧
      path.ModulesEnd sources last ((path.readModulesFrom sources ∅ roots).run book).result ∧
      (parses.map fun parse => parse.1.name).Nodup ∧
      last.parsed <+: (parses.map fun parse => parse.1.name) ∧
      (((path.readModulesFrom sources ∅ roots).run book).result.isOk = true →
        last.parsed = parses.map fun parse => parse.1.name) ∧
      ((path.readModulesFrom sources ∅ roots).run book).events =
        parses.flatMap fun parse => ((path.readModule sources parse.1).run parse.2).events
  modules_once : ∀ sources roots book desk,
    ReflTransGen (path.ModuleStep sources) (.start roots book) desk → desk.parsed.Nodup
  /-- The contracts of a graph come of one row of visits, and its modules of one row of steps. -/
  graph_read : ∀ graph, (path.readGraph project).result = .ok graph →
    (∃ desk, path.Visits ∅ graph.contracts.names
      (.ok (graph.contracts.items.flatMap Contract.getters)) desk ∧ desk.begun.Nodup) ∧
    ∃ sources roots book last, ReflTransGen (path.ModuleStep sources) (.start roots book) last ∧
      last.queue = [] ∧ graph.modules.names = last.parsed

theorem exists_visits_of_readGraph {graph : ObjectGraph}
    (h : (path.readGraph project).result = .ok graph) :
    ∃ desk, path.Visits ∅ graph.contracts.names
      (.ok (graph.contracts.items.flatMap Contract.getters)) desk ∧ desk.begun.Nodup := by
  have hends : Ends (path.readGraph project) () graph () := h
  simp only [readGraph, ends_bind, ends_pure] at hends
  obtain ⟨⟨read, book⟩, _, hread, rfl, -⟩ := hends
  obtain ⟨marked, found, sources, roots, middle, late, rfl, -, -, -, hmarked, hfound, hmodules,
    hcontracts, -⟩ := exists_steps_of_ends hread
  have hcontract := fun name => @keepsVisited_readContract path sources.project name
  have hmiddle := keeps_readMarkedClasses hcontract _ _ _ (ContractBook.visited_empty path) hmarked
  have hlate := keeps_readRoots hcontract _ _ _ hmiddle hfound
  obtain ⟨desk, hvisits, -⟩ := keeps_readModules sources hcontract roots _ _ _ hlate hmodules
  exact ⟨desk, hcontracts ▸ hvisits, (hvisits.sound GetterDesk.sound_empty).once⟩

theorem exists_steps_of_readGraph {graph : ObjectGraph}
    (h : (path.readGraph project).result = .ok graph) :
    ∃ sources roots book last, ReflTransGen (path.ModuleStep sources) (.start roots book) last ∧
      last.queue = [] ∧ graph.modules.names = last.parsed := by
  have hends : Ends (path.readGraph project) () graph () := h
  simp only [readGraph, ends_bind, ends_pure] at hends
  obtain ⟨⟨read, book⟩, _, hread, rfl, -⟩ := hends
  obtain ⟨-, -, sources, roots, -, late, -, -, -, -, -, -, hmodules, -⟩ :=
    exists_steps_of_ends hread
  simp only [readModules, ends_bind, ends_pure] at hmodules
  obtain ⟨known, after, hknown, hlinked, -⟩ := hmodules
  obtain ⟨last, -, hsteps, hend, -⟩ := @exists_modulesEnd path sources ∅ roots late []
  rw [show ((path.readModulesFrom sources ∅ roots).run late).result = .ok (known, after) from
    hknown] at hend
  cases hend
  refine ⟨sources, roots, late, _, hsteps, rfl, ?_⟩
  rw [parsed_eq_keys hsteps, hlinked]
  exact Table.keys_mapValues ..

theorem reading_ends_and_works_once (path : ClassPath) (project : String) :
    path.WorksOnce project where
  ends := by
    cases hresult : (path.readGraph project).result with
    | ok graph => exact .inl ⟨graph, rfl⟩
    | error failure =>
        obtain ⟨name, hunknown, rfl⟩ := misses_readGraph project failure hresult
        exact .inr ⟨name, hunknown, rfl⟩
  ancestors_end := SearchSpace.wellFounded_takes _
  ancestors_found name := SearchSpace.takes_visit [] [name]
  getters_end desk names := by
    obtain ⟨outcome, after, hvisits⟩ := path.exists_visits desk names
    refine ⟨(outcome, after), hvisits, fun done hdone => ?_⟩
    obtain ⟨houtcome, hafter⟩ := hdone.unique hvisits
    exact Prod.ext houtcome hafter
  getters_read _ _ _ _ h := h.result_readAllGetters
  getters_restore _ _ _ _ h := h.inProgress_eq rfl
  getters_once _ _ _ _ hdesk h := h.sound hdesk
  getters_told _ _ _ _ h := h.exists_worked
  modules_end := path.wellFounded_moduleStep
  modules_read sources roots book := exists_modulesEnd ∅ roots book []
  modules_once _ _ _ desk h := by
    rw [parsed_eq_keys h]
    exact desk.modules.distinct
  graph_read _ h := ⟨exists_visits_of_readGraph h, exists_steps_of_readGraph h⟩

end ClassPath

end InjectionCompiler
