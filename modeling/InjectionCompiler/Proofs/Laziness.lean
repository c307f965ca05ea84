import InjectionCompiler.Proofs.Compilation

/-!
# How imported contracts are served

Each import says whether its contract is made lazily.  A plan has one list of getters for each
contract, and the first import of the contract sets the mode of all of them.  An import in the other
mode has no getters of its own.
-/

namespace InjectionCompiler

/-! ## The modes of imports -/

namespace Import

/-- Whether the import makes the contract lazily, where it is an import of this contract. -/
def modeOf? (declared : Import) (id : Id .contract) : Option Bool :=
  declared.contract?.bind fun (target, _, lazy) => if target = id then some lazy else none

theorem modeOf?_eq_some {declared : Import} {id : Id .contract} {lazy : Bool} :
    declared.modeOf? id = some lazy ↔ ∃ site, declared = .contract id site lazy := by
  cases declared with
  | module target site => simp [modeOf?, contract?]
  | contract target site mode =>
      simp only [modeOf?, contract?, Option.bind_some, Option.ite_none_right_eq_some,
        Option.some.injEq, Import.contract.injEq, exists_and_left, exists_eq_left']

end Import

theorem find?_fst_eq_some_iff {α κ : Type} [DecidableEq κ] {entries : List (κ × α)} {key : κ}
    {item : α} : entries.find? (fun entry => entry.1 = key) = some (key, item) ↔
      (entries.filterMap fun entry => if entry.1 = key then some entry.2 else none).head? =
        some item := by
  induction entries with
  | nil => simp
  | cons entry entries ih =>
      obtain ⟨other, held⟩ := entry
      by_cases h : other = key <;> simp [h, ih]

namespace ObjectGraph

/-- The modes in which modules of the input import a contract, in the order of the imports. -/
def importModes (graph : ObjectGraph) (path : ClassPath) (id : Id .contract) : List Bool :=
  (graph.inputModules path).flatMap fun module =>
    module.imports.filterMap fun declared => declared.modeOf? id

variable {graph : ObjectGraph} {path : ClassPath} {id : Id .contract} {mode : Bool}

theorem mem_importModes : mode ∈ graph.importModes path id ↔
    ∃ module ∈ graph.inputModules path, ∃ site, .contract id site mode ∈ module.imports := by
  simp only [importModes, List.mem_flatMap, List.mem_filterMap, Import.modeOf?_eq_some]
  refine exists_congr fun module => and_congr_right fun _ => ?_
  constructor
  · rintro ⟨_, himport, site, rfl⟩
    exact ⟨site, himport⟩
  · rintro ⟨site, himport⟩
    exact ⟨_, himport, site, rfl⟩

theorem mem_inputImports_iff {contract : Contract} :
    (id, contract, mode) ∈ graph.inputImports path ↔
      graph.contracts.get? id = some contract ∧
        (graph.importModes path id).head? = some mode := by
  have hmodes : (graph.importModes path id).head? = some mode ↔
      (id, mode) ∈ Assigning.importedContracts (graph.inputModules path) := by
    rw [Assigning.importedContracts_eq, mem_firsts_iff, find?_fst_eq_some_iff,
      List.filterMap_flatMap]
    simp only [importModes, List.filterMap_filterMap, Import.modeOf?, Option.bind_map,
      Function.comp_def]
  rw [hmodes, inputImports, List.mem_filterMap]
  constructor
  · rintro ⟨⟨other, lazy⟩, hmem, heq⟩
    obtain ⟨held, hheld, heq⟩ := Option.map_eq_some_iff.1 heq
    cases heq
    exact ⟨hheld, hmem⟩
  · rintro ⟨hcontract, hmem⟩
    exact ⟨_, hmem, Option.map_eq_some_iff.2 ⟨contract, hcontract, rfl⟩⟩

end ObjectGraph

/-! ## The getters of a plan -/

namespace Plan

/-- Every import of a contract by a module of the input has, for each getter, a provider in the mode
of the import. -/
def ServesEveryImport (path : ClassPath) (graph : ObjectGraph) (plan : Plan) : Prop :=
  ∀ module ∈ graph.inputModules path, ∀ id site lazy, .contract id site lazy ∈ module.imports →
    ∀ contract, graph.contracts.get? id = some contract → ∀ getter ∈ contract.getters,
      ∃ provider ∈ plan.providers, provider.medium = .getter id lazy getter

/-- The getters of each imported contract are served in the mode of its first import. -/
structure ServesFirstModes (path : ClassPath) (graph : ObjectGraph) (plan : Plan) : Prop where
  imports_known : ∀ module ∈ graph.inputModules path, ∀ id site lazy,
    .contract id site lazy ∈ module.imports → ∃ contract, graph.contracts.get? id = some contract
  served_iff : ∀ id contract, graph.contracts.get? id = some contract →
    ∀ getter ∈ contract.getters, ∀ mode,
      (∃ provider ∈ plan.providers, provider.medium = .getter id mode getter) ↔
        (graph.importModes path id).head? = some mode
  serves_every_iff : plan.ServesEveryImport path graph ↔
    ∀ id contract, graph.contracts.get? id = some contract → contract.getters ≠ [] →
      ∀ mode ∈ graph.importModes path id, (graph.importModes path id).head? = some mode

variable {path : ClassPath} {graph : ObjectGraph} {plan : Plan} {before after : Assignment}
  {project : String}

theorem exists_getterProvider_iff (hgraph : graph.WellFormed) (hsound : before.Sound graph)
    (h : Ends (Assigning.composePlan path graph) before plan after) {id : Id .contract}
    {mode : Bool} {getter : Getter} :
    (∃ provider ∈ plan.byContract.values.flatten, provider.medium = .getter id mode getter) ↔
      ∃ contract, (id, contract, mode) ∈ graph.inputImports path ∧ getter ∈ contract.getters := by
  obtain ⟨moduleEntries, contractEntries, middle, assigned, named, hmodules, hcontracts, -,
    hbyContract, -⟩ := Assigning.exists_steps_of_composePlan h
  obtain ⟨hmiddle, -, -⟩ := Assigning.moduleEntries_spec hgraph hsound hmodules
  obtain ⟨-, -, hentries⟩ := Assigning.contractEntries_spec hgraph hmiddle hcontracts
  have hnames : (contractEntries.map Prod.fst).Nodup := by
    rw [Table.map_fst_of_forall₂ hentries]
    exact hgraph.nodup_inputImports
  rw [hbyContract, Table.values, Table.entries_ofList hnames]
  constructor
  · rintro ⟨provider, hprovider, hmedium⟩
    obtain ⟨providers, hproviders, hmem⟩ := List.mem_flatten.1 hprovider
    obtain ⟨entry, hentry, rfl⟩ := List.mem_map.1 hproviders
    obtain ⟨⟨target, contract, lazy⟩, himport, -, hserve⟩ := exists_left_of_forall₂ hentries hentry
    have hserved := List.mem_map_of_mem (f := Provider.medium) hmem
    rw [show entry.2.map Provider.medium = _ from hserve, hmedium] at hserved
    obtain ⟨served, hgetter, heq⟩ := List.mem_map.1 hserved
    cases heq
    exact ⟨contract, himport, hgetter⟩
  · rintro ⟨contract, himport, hgetter⟩
    obtain ⟨entry, hentry, -, hserve⟩ := exists_right_of_forall₂ hentries himport
    have hserved : Medium.getter id mode getter ∈ entry.2.map Provider.medium := by
      rw [show entry.2.map Provider.medium = _ from hserve]
      exact List.mem_map_of_mem hgetter
    obtain ⟨provider, hprovider, hmedium⟩ := List.mem_map.1 hserved
    exact ⟨provider, List.mem_flatten.2 ⟨_, List.mem_map_of_mem hentry, hprovider⟩, hmedium⟩

theorem Complete.medium_ne_getter {assigned : Assignment}
    (hplan : plan.Complete path graph assigned)
    {provider : Provider} (hprovider : provider ∈ plan.byModule.values.flatten)
    (id : Id .contract) (mode : Bool) (getter : Getter) :
    provider.medium ≠ .getter id mode getter := by
  intro hmedium
  obtain ⟨providers, hproviders, hmem⟩ := List.mem_flatten.1 hprovider
  obtain ⟨entry, hentry, rfl⟩ := List.mem_map.1 hproviders
  obtain ⟨module, -, -, hserves⟩ := hplan.of_module _ _ hentry
  have hserved := List.mem_map_of_mem (f := Provider.medium) hmem
  rw [Assignment.map_medium_of_serves hserves, hmedium] at hserved
  rcases Module.mem_media.1 hserved with
    ⟨_, -, heq⟩ | ⟨_, -, heq⟩ | ⟨_, -, heq⟩ | ⟨_, -, heq⟩ <;> cases heq

/-- The getters of a contract are served in one mode, that of its first import. -/
theorem exists_provider_iff (hgraph : graph.WellFormed) (hgrounded : graph.Grounded project)
    {own : String} {compiled : List ClassName}
    (h : Ends (Assigning.composePlan path graph) (.ofCompiled own compiled) plan after)
    {id : Id .contract} {contract : Contract} (hcontract : graph.contracts.get? id = some contract)
    {getter : Getter} (hgetter : getter ∈ contract.getters) (mode : Bool) :
    (∃ provider ∈ plan.providers, provider.medium = .getter id mode getter) ↔
      (graph.importModes path id).head? = some mode := by
  have hsound := Assignment.sound_ofCompiled graph own compiled
  obtain ⟨assigned, hcomplete⟩ := exists_complete hgraph hsound h
  have hroster := roster_of_ends hgraph hgrounded hcomplete h
  have hlisted : (∃ provider ∈ plan.providers, provider.medium = .getter id mode getter) ↔
      ∃ provider ∈ plan.byContract.values.flatten, provider.medium = .getter id mode getter := by
    refine exists_congr fun provider => and_congr_left fun hmedium => ?_
    rw [hroster.mem_providers, exists_listed_iff, List.mem_append]
    exact or_iff_right fun hmodule => hcomplete.medium_ne_getter hmodule id mode getter hmedium
  rw [hlisted, exists_getterProvider_iff hgraph hsound h]
  simp only [ObjectGraph.mem_inputImports_iff]
  constructor
  · rintro ⟨other, ⟨-, hfirst⟩, -⟩
    exact hfirst
  · exact fun hfirst => ⟨contract, ⟨hcontract, hfirst⟩, hgetter⟩

theorem servesFirstModes (hgraph : graph.WellFormed) (hgrounded : graph.Grounded project)
    {own : String} {compiled : List ClassName}
    (h : Ends (Assigning.composePlan path graph) (.ofCompiled own compiled) plan after) :
    plan.ServesFirstModes path graph := by
  have hserved : ∀ id contract, graph.contracts.get? id = some contract →
      ∀ getter ∈ contract.getters, ∀ mode,
        (∃ provider ∈ plan.providers, provider.medium = .getter id mode getter) ↔
          (graph.importModes path id).head? = some mode :=
    fun _ _ hcontract _ hgetter mode =>
      exists_provider_iff hgraph hgrounded h hcontract hgetter mode
  constructor
  case imports_known =>
    exact fun module hmodule =>
      hgrounded.imported_contracts module (ObjectGraph.mem_inputModules.1 hmodule).1
  case served_iff => exact hserved
  case serves_every_iff =>
    constructor
    · intro hevery id contract hcontract hgetters mode hmode
      obtain ⟨getter, hgetter⟩ := List.exists_mem_of_ne_nil _ hgetters
      obtain ⟨module, hmodule, site, himport⟩ := ObjectGraph.mem_importModes.1 hmode
      exact (hserved id contract hcontract getter hgetter mode).1
        (hevery module hmodule id site mode himport contract hcontract getter hgetter)
    · intro hfirst module hmodule id site lazy himport contract hcontract getter hgetter
      exact (hserved id contract hcontract getter hgetter lazy).2
        (hfirst id contract hcontract (List.ne_nil_of_mem hgetter) lazy
          (ObjectGraph.mem_importModes.2 ⟨module, hmodule, site, himport⟩))

end Plan

namespace Compilation

variable {run : Compilation} {graph : ObjectGraph} {plan : Plan} {project : String}

/-- The plan for a graph that was read from a class path serves each imported contract in one
mode. -/
theorem imports_served_in_first_mode (hgraph : (run.path.readGraph project).result = .ok graph)
    (hplan : (run.plan graph).value.1 = .ok plan) : plan.ServesFirstModes run.path graph :=
  Plan.servesFirstModes (ClassPath.wellFormed_readGraph hgraph)
    (ClassPath.grounded_readGraph hgraph) (ends_plan hplan)

end Compilation

/-! ## A contract imported in both modes -/

namespace Inn

def desk : ClassDecl :=
  { ClassDecl.ofInterface ⟨"inn/Desk"⟩ with
    annotations := [.ofType Vocabulary.contract]
    methods := [{ MethodDecl.emptyConstructor with
      name := "key", returns := .ofClass ⟨"inn/Key"⟩ }] }

def component (name : ClassName) (desk : Signature) : ClassDecl :=
  { ClassDecl.ofClass name with
    annotations := [.ofType Vocabulary.component]
    methods := [{ MethodDecl.emptyConstructor with
      name := "desk"
      returns := desk
      annotations := [.ofType Vocabulary.importMark, .ofType Vocabulary.contract] }] }

def run : Compilation where
  path := [desk, ClassDecl.ofClass ⟨"inn/Key"⟩,
    component ⟨"inn/Lobby"⟩ (.ofClass ⟨"inn/Desk"⟩),
    component ⟨"inn/Tower"⟩ (.applied Vocabulary.lazy [.ofClass ⟨"inn/Desk"⟩])].foldl
      ClassPath.addInput ∅
  compiled := []
  config := .default
  time := ""

def modes (graph : ObjectGraph) (plan : Plan) : List Bool × List Bool :=
  (graph.importModes run.path ⟨0⟩, plan.providers.filterMap fun provider =>
    match provider.medium with
    | .getter _ mode _ => some mode
    | _ => none)

end Inn

namespace Compilation

set_option maxRecDepth 100000 in
theorem imports_served_in_first_mode_inn :
    ∃ graph plan, (Inn.run.path.readGraph "main").result = .ok graph ∧
      (Inn.run.plan graph).value.1 = .ok plan ∧ Inn.modes graph plan = ([false, true], [false]) ∧
      plan.ServesFirstModes Inn.run.path graph := by
  have hmodes : ((Inn.run.path.readGraph "main").result >>= fun graph =>
      (Inn.run.plan graph).value.1.map fun plan => Inn.modes graph plan) =
        .ok ([false, true], [false]) := by
    decide +kernel
  obtain ⟨graph, hgraph, hmodes⟩ := bind_eq_ok.1 hmodes
  obtain ⟨plan, hplan, hmodes⟩ := exists_ok_of_map_eq_ok hmodes
  exact ⟨graph, plan, hgraph, hplan, hmodes, imports_served_in_first_mode hgraph hplan⟩

set_option maxRecDepth 100000 in
/-- The tower imports the contract lazily, and the plan has no lazy getter for it. -/
theorem lazy_import_not_served :
    ∃ graph plan, (Inn.run.path.readGraph "main").result = .ok graph ∧
      (Inn.run.plan graph).value.1 = .ok plan ∧
      ¬ plan.ServesEveryImport Inn.run.path graph := by
  have hmodes : ((Inn.run.path.readGraph "main").result >>= fun graph =>
      (Inn.run.plan graph).value.1.map fun _ => (graph.importModes Inn.run.path ⟨0⟩,
        (graph.contracts.get? ⟨0⟩).map fun contract => contract.getters.length)) =
      .ok ([false, true], some 1) := by
    decide +kernel
  obtain ⟨graph, hgraph, hmodes⟩ := bind_eq_ok.1 hmodes
  obtain ⟨plan, hplan, hmodes⟩ := exists_ok_of_map_eq_ok hmodes
  obtain ⟨himports, hgetters⟩ := Prod.mk.inj hmodes
  obtain ⟨contract, hcontract, hlength⟩ := Option.map_eq_some_iff.1 hgetters
  refine ⟨graph, plan, hgraph, hplan, fun hserves => ?_⟩
  have hfirst := (Plan.servesFirstModes (ClassPath.wellFormed_readGraph hgraph)
    (ClassPath.grounded_readGraph hgraph) (ends_plan hplan)).serves_every_iff.1 hserves ⟨0⟩ contract
      hcontract (List.ne_nil_of_length_eq_add_one hlength) true
  rw [himports] at hfirst
  exact absurd (hfirst (List.mem_cons_of_mem _ (List.mem_cons_self ..))) (by decide)

end Compilation

end InjectionCompiler
