import InjectionCompiler.Proofs.Census
import InjectionCompiler.Proofs.Plan

/-!
# One more way to a module

A module that a container reaches already may be imported once more, by any module that the
container reaches.  This closes cycles and changes the order in which modules are visited.  What is
effective, what the container complains of and what is planned all stay the same.
-/

namespace InjectionCompiler

/-! ## Importing a module -/

/-- The module with one more import, which is of a module. -/
def Module.importing (module : Module) (imported : Id .module) (site : ImportSite) : Module :=
  { module with imports := module.imports ++ [.module imported site] }

/-- The graph in which one module imports another in addition. -/
def ObjectGraph.importModule (graph : ObjectGraph) (importer imported : Id .module)
    (site : ImportSite) : ObjectGraph :=
  { graph with modules := graph.modules.modify importer (·.importing imported site) }

/-- The modules differ in their imports of modules at most. -/
def Module.Shares (module other : Module) : Prop :=
  ∃ imports, other = { module with imports := imports } ∧
    imports.filterMap Import.contract? = module.imports.filterMap Import.contract?

namespace Module.Shares

theorem refl (module : Module) : module.Shares module :=
  ⟨module.imports, rfl, rfl⟩

theorem importing (module : Module) (imported : Id .module) (site : ImportSite) :
    module.Shares (module.importing imported site) :=
  ⟨_, rfl, by simp [Import.contract?]⟩

end Module.Shares

namespace ObjectGraph

variable {graph : ObjectGraph} {importer imported root : Id .module} {site : ImportSite}

theorem forall₂_items_importModule :
    List.Forall₂ Module.Shares graph.modules.items
      (graph.importModule importer imported site).modules.items := by
  have hitems : (graph.importModule importer imported site).modules.items =
      graph.modules.items.modify importer.index (·.importing imported site) :=
    Table.values_modifyAt ..
  rw [hitems]
  generalize importer.index = place
  induction graph.modules.items generalizing place with
  | nil => cases place <;> exact .nil
  | cons module modules ih =>
      cases place with
      | zero =>
          exact .cons (.importing module imported site)
            (List.forall₂_same.2 fun other _ => .refl other)
      | succ place => exact .cons (.refl module) (ih place)

theorem forall₂_filterMap_importModule (ids : List (Id .module)) :
    List.Forall₂ Module.Shares (ids.filterMap graph.modules.get?)
      (ids.filterMap (graph.importModule importer imported site).modules.get?) := by
  induction ids with
  | nil => exact .nil
  | cons id ids ih =>
      have hget : (graph.importModule importer imported site).modules.get? id = _ :=
        graph.modules.get?_modify importer id (·.importing imported site)
      rw [List.filterMap_cons, List.filterMap_cons, hget]
      cases graph.modules.get? id with
      | none => exact ih
      | some module =>
          refine .cons ?_ ih
          dsimp only
          split
          · exact .importing module imported site
          · exact .refl module

/-! ## Effective modules -/

theorem step_importModule {id next : Id .module} :
    (graph.importModule importer imported site).importSpace.Step id next ↔
      graph.importSpace.Step id next ∨
        (id = importer ∧ next = imported ∧ (graph.modules.get? id).isSome) := by
  have hget : (graph.importModule importer imported site).modules.get? id = _ :=
    graph.modules.get?_modify importer id (·.importing imported site)
  have hsame : importer.index = id.index ↔ id = importer := by
    cases importer
    cases id
    simp [eq_comm]
  change next ∈ importedModules _ id ↔ next ∈ importedModules _ id ∨ _
  rw [importedModules, importedModules, hget]
  cases graph.modules.get? id with
  | none => simp
  | some module =>
      simp only [Option.map_some, Option.isSome_some, and_true, hsame]
      split
      · next heq => simp [heq, Module.importing, Module.importedModules, Import.module?]
      · next hne => simp [hne]

/-- The new import leads to no module that was not reached before. -/
theorem mem_effectiveIds_importModule (himported : imported ∈ graph.effectiveIds root)
    (id : Id .module) :
    id ∈ (graph.importModule importer imported site).effectiveIds root ↔
      id ∈ graph.effectiveIds root := by
  rw [effectiveIds, SearchSpace.mem_reach_iff, SearchSpace.leads_iff] at *
  rw [effectiveIds, SearchSpace.mem_reach_iff, SearchSpace.leads_iff] at *
  constructor
  · intro h
    induction h with
    | refl => exact .refl
    | tail _ hstep ih =>
        rcases step_importModule.1 hstep with hold | ⟨-, rfl, -⟩
        · exact ih.tail hold
        · exact himported
  · intro h
    induction h with
    | refl => exact .refl
    | tail _ hstep ih => exact ih.tail (step_importModule.2 (.inl hstep))

theorem effectiveIds_importModule_perm (himported : imported ∈ graph.effectiveIds root) :
    ((graph.importModule importer imported site).effectiveIds root).Perm
      (graph.effectiveIds root) :=
  (List.perm_ext_iff_of_nodup (SearchSpace.nodup_reach _ _) (SearchSpace.nodup_reach _ _)).2
    (mem_effectiveIds_importModule himported)

end ObjectGraph

/-! ## Wirings -/

namespace Wiring

theorem ofModules_shares (graph : ObjectGraph) (modules : Arena .module Module)
    {held others : List Module} (h : List.Forall₂ Module.Shares held others)
    (bindings : List Binding) (contracts : List (Id .contract)) :
    ofModules { graph with modules := modules } bindings contracts others =
      ofModules graph bindings contracts held := by
  induction h generalizing bindings contracts with
  | nil => rfl
  | @cons module _ held others hshares _ ih =>
      obtain ⟨imports, rfl, himports⟩ := hshares
      have hcontracts : contractImports { module with imports := imports } =
          contractImports module := by
        have hmapped := congrArg (List.map fun entry : Id .contract × ImportSite × Bool =>
          (entry.1, entry.2.1)) himports
        rwa [List.map_filterMap, List.map_filterMap] at hmapped
      rw [ofModules, ofModules, ih, hcontracts]
      rfl

theorem census_ofModules_perm (graph : ObjectGraph) {held others : List Module}
    (h : held.Perm others) :
    (ofModules graph [] [] held).census = (ofModules graph [] [] others).census := by
  have hbindings : (firstsFrom id [] (held.flatMap Module.bindings) : Multiset Binding) =
      firstsFrom id [] (others.flatMap Module.bindings) := by
    refine (coe_firsts _).trans (Eq.trans ?_ (coe_firsts _).symm)
    rw [Multiset.coe_eq_coe.2 (h.flatMap_right Module.bindings)]
  have himports : ((firstsFrom Prod.fst [] (held.flatMap contractImports)).map Prod.fst).Perm
      ((firstsFrom Prod.fst [] (others.flatMap contractImports)).map Prod.fst) := by
    refine (List.perm_ext_iff_of_nodup (nodup_map_firstsFrom ..) (nodup_map_firstsFrom ..)).2
      fun id => ?_
    rw [key_mem_map_firstsFrom, key_mem_map_firstsFrom,
      ((h.flatMap_right contractImports).map Prod.fst).mem_iff]
  rw [census_ofModules, census_ofModules, hbindings, Multiset.coe_eq_coe.2 (h.map graph.showing),
    Multiset.coe_eq_coe.2 (himports.filterMap graph.contracts.get?)]

theorem census_ofRoot_importModule {graph : ObjectGraph} {imported root : Id .module}
    (himported : imported ∈ graph.effectiveIds root) (importer : Id .module) (site : ImportSite) :
    (ofRoot (graph.importModule importer imported site) root).census =
      (ofRoot graph root).census := by
  have hids : ((graph.importModule importer imported site).effectiveIds root).Perm
      (graph.effectiveIds root) := ObjectGraph.effectiveIds_importModule_perm himported
  rw [ofRoot, ofRoot, census_append, census_append]
  refine congrArg (_ + ·) (Eq.trans (congrArg census ?_)
    (census_ofModules_perm graph (hids.filterMap graph.modules.get?)))
  exact ofModules_shares graph _ (ObjectGraph.forall₂_filterMap_importModule _) [] []

end Wiring

/-! ## Plans -/

theorem map_eq_of_forall₂ {α β γ : Type} {change : α → γ} {other : β → γ} {xs : List α}
    {ys : List β} (h : List.Forall₂ (fun x y => change x = other y) xs ys) :
    xs.map change = ys.map other := by
  induction h with
  | nil => rfl
  | cons hhead _ ih => rw [List.map_cons, List.map_cons, hhead, ih]

theorem mapM_congr_of_forall₂ {m : Type → Type} [Monad m] [LawfulMonad m] {α β γ : Type}
    {act : α → m γ} {other : β → m γ} {xs : List α} {ys : List β}
    (h : List.Forall₂ (fun x y => act x = other y) xs ys) : xs.mapM act = ys.mapM other := by
  induction h with
  | nil => rfl
  | cons hhead _ ih => rw [List.mapM_cons, List.mapM_cons, hhead, ih]

namespace Assigning

theorem composePlan_shares (path : ClassPath) (graph : ObjectGraph) {modules : Arena .module Module}
    (h : List.Forall₂ Module.Shares graph.modules.items modules.items) :
    composePlan path { graph with modules := modules } = composePlan path graph := by
  -- The modules of the input correspond, and composing a plan asks nothing of them but these lists.
  have hinput : List.Forall₂ Module.Shares
      (graph.modules.items.filter fun module => path.isInput module.name)
      (modules.items.filter fun module => path.isInput module.name) := by
    refine List.rel_filter ?_ h
    rintro module _ ⟨imports, rfl, -⟩
    rfl
  have hproviders : (modules.items.filter fun module => path.isInput module.name).mapM
      (fun module => do
        let providers ← ofModule { graph with modules := modules } module
        return (module.name, providers) : Module → Assigning (ClassName × List Provider)) =
      (graph.modules.items.filter fun module => path.isInput module.name).mapM fun module => do
        let providers ← ofModule graph module
        return (module.name, providers) := by
    refine (mapM_congr_of_forall₂ (hinput.imp ?_)).symm
    rintro module _ ⟨imports, rfl, -⟩
    rfl
  have hcontracts : (modules.items.filter fun module => path.isInput module.name).map
      Module.contracts =
      (graph.modules.items.filter fun module => path.isInput module.name).map
        Module.contracts := by
    refine (map_eq_of_forall₂ (hinput.imp ?_)).symm
    rintro module _ ⟨imports, rfl, -⟩
    rfl
  have himported : importedContracts (modules.items.filter fun module =>
      path.isInput module.name) =
      importedContracts (graph.modules.items.filter fun module => path.isInput module.name) := by
    rw [importedContracts_eq, importedContracts_eq, List.flatMap_def, List.flatMap_def]
    refine congrArg (fun lists => firsts Prod.fst (List.flatten lists)) ?_
    refine (map_eq_of_forall₂ (hinput.imp ?_)).symm
    rintro module _ ⟨imports, rfl, himports⟩
    have hmapped := congrArg (List.map fun entry : Id .contract × ImportSite × Bool =>
      (entry.1, entry.2.2)) himports
    rw [List.map_filterMap, List.map_filterMap] at hmapped
    exact hmapped.symm
  unfold composePlan
  dsimp only
  simp only [List.flatMap_def, hproviders, hcontracts, himported]
  rfl

theorem composePlan_importModule (path : ClassPath) (graph : ObjectGraph)
    (importer imported : Id .module) (site : ImportSite) :
    composePlan path (graph.importModule importer imported site) = composePlan path graph :=
  composePlan_shares path graph ObjectGraph.forall₂_items_importModule

end Assigning

/-! ## One more way -/

/-- Whoever imports a module that the container reaches already, nothing changes for the container:
not its effective modules, not which keys it has several sources for and how many, not which keys it
lacks, and not its cycles.  Nor does it change what is planned. -/
theorem ObjectGraph.reimport_harmless (graph : ObjectGraph) {root imported : Id .module}
    (himported : imported ∈ graph.effectiveIds root) (importer : Id .module) (site : ImportSite) :
    let more := graph.importModule importer imported site
    let wiring := Wiring.ofRoot graph root
    let rewired := Wiring.ofRoot more root
    (more.effectiveIds root).Perm (graph.effectiveIds root) ∧
      (∀ key count, (∃ sources, (key, sources) ∈ rewired.duplicates ∧ sources.length = count) ↔
        ∃ sources, (key, sources) ∈ wiring.duplicates ∧ sources.length = count) ∧
      (∀ key, key ∈ rewired.unresolved.map Prod.fst ↔ key ∈ wiring.unresolved.map Prod.fst) ∧
      (∀ nodes, nodes ∈ Cycle.cycleSets rewired.edges ↔ nodes ∈ Cycle.cycleSets wiring.edges) ∧
      ∀ path, Assigning.composePlan path more = Assigning.composePlan path graph := by
  have hcensus := Wiring.census_ofRoot_importModule himported importer site
  refine ⟨effectiveIds_importModule_perm himported, fun key count => ?_, ?_, ?_, fun path => ?_⟩
  · rw [Wiring.exists_mem_duplicates_iff, Wiring.exists_mem_duplicates_iff, hcensus]
  · exact Wiring.mem_unresolved_congr hcensus
  · exact Cycle.mem_cycleSets_congr (Wiring.mem_edges_congr hcensus)
  · exact Assigning.composePlan_importModule path graph importer imported site

/-! ## A diamond that becomes a cycle -/

namespace Diamond

def site : ImportSite :=
  .method ⟨"diamond/Root"⟩ "imports"

def clock (owner : ClassName) : ProvisionPoint :=
  ⟨owner, .ofClass ⟨"diamond/Clock"⟩, .unscoped, .method "clock" []⟩

def module (name : String) (imports : List Nat) : Module :=
  { Module.empty ⟨name⟩ with
    imports := imports.map fun index => .module ⟨index⟩ site
    provisionPoints := [clock ⟨name⟩] }

def graph : ObjectGraph :=
  { (default : ObjectGraph) with
    modules := ⟨.ofList ([module "diamond/Root" [1, 2], module "diamond/Left" [3],
      module "diamond/Right" [3], module "diamond/Base" []].map fun module =>
        (module.name, module))⟩ }

end Diamond

/-- The base of the diamond may import its root. -/
theorem ObjectGraph.reimport_harmless_diamond :
    (Diamond.graph.importModule ⟨3⟩ ⟨0⟩ Diamond.site).importedModules ⟨3⟩ = [⟨0⟩] ∧
      ((Diamond.graph.importModule ⟨3⟩ ⟨0⟩ Diamond.site).effectiveIds ⟨0⟩).Perm
        [⟨0⟩, ⟨1⟩, ⟨2⟩, ⟨3⟩] := by
  have hreached : Diamond.graph.effectiveIds ⟨0⟩ = [⟨0⟩, ⟨1⟩, ⟨2⟩, ⟨3⟩] := by
    decide +kernel
  have hroot : ⟨0⟩ ∈ Diamond.graph.effectiveIds ⟨0⟩ := by
    rw [hreached]
    exact List.mem_cons_self ..
  obtain ⟨heffective, -⟩ := reimport_harmless Diamond.graph hroot ⟨3⟩ Diamond.site
  rw [hreached] at heffective
  exact ⟨by decide +kernel, heffective⟩

end InjectionCompiler
