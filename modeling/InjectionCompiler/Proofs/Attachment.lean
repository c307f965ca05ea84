import InjectionCompiler.Proofs.Likeness
import InjectionCompiler.Proofs.Validity

/-!
# Where bindings are attached

A class stands in for the ancestors that it lists, each under the qualifier of the class.  Its
bindings go to the modules that provide the class without a qualifier, so the constructor of a class
with a qualifier attracts none of them.
-/

namespace InjectionCompiler

/-- The keys of everything that a module provides by itself. -/
def ObjectGraph.ownKeys (graph : ObjectGraph) (module : Module) : List Key :=
  module.provisionPoints.map ProvisionPoint.key ++
    (graph.hostedFactories module).map Factory.key ++
    (graph.hostedContracts module).map Contract.key

def Module.HasConstructor (module : Module) (name : ClassName) : Prop :=
  ∃ point ∈ module.provisionPoints, point.IsConstructor ∧ point.owner = name

namespace ClassPath

/-- The class lists the ancestor among those it stands in for. -/
def StandsIn (decl : ClassDecl) (ancestor : ClassName) : Prop :=
  ∃ entries, annotationList? decl.annotations Vocabulary.providedAs = some entries ∧
    .type (.object ancestor) ∈ entries

def classQualifier (path : ClassPath) (decl : ClassDecl) : Option Annotation :=
  (path.readQualifier decl.annotations decl.name.display).value

def bindingTo (path : ClassPath) (decl : ClassDecl) (ancestor : ClassName) : Binding :=
  ⟨.ofClass decl.name, ⟨.ofClass ancestor, path.classQualifier decl⟩⟩

/-- What becomes of the binding of a class to an ancestor. -/
structure Binds (path : ClassPath) (graph : ObjectGraph) (decl : ClassDecl)
    (ancestor : ClassName) : Prop where
  declared : path.bindingTo decl ancestor ∈ graph.bindings
  mem_iff : ∀ module ∈ graph.modules.items,
    path.bindingTo decl ancestor ∈ module.bindings ↔
      .ofClass decl.name ∈ (graph.ownKeys module).map Key.boxed
  /-- The constructor of a class counts as the class under its qualifier. -/
  own_key : ∀ module ∈ graph.modules.items, module.HasConstructor decl.name →
    ⟨.ofClass decl.name, path.classQualifier decl⟩ ∈ graph.ownKeys module
  of_unqualified : path.classQualifier decl = none → ∀ module ∈ graph.modules.items,
    module.HasConstructor decl.name → path.bindingTo decl ancestor ∈ module.bindings
  /-- Whether the binding is among those that validation reports. -/
  reported_iff : path.bindingTo decl ancestor ∈
      graph.bindings.filter (fun bound => !graph.isAttached bound) ↔
    ∀ module ∈ graph.modules.items, .ofClass decl.name ∉ (graph.ownKeys module).map Key.boxed

/-- Wherever a class is hosted, the ancestors that it stands in for are provided from it. -/
def BindsWhereverHosted (path : ClassPath) (graph : ObjectGraph) : Prop :=
  ∀ decl ∈ path.decls, ∀ ancestor, StandsIn decl ancestor → ∀ module ∈ graph.modules.items,
    module.HasConstructor decl.name → path.bindingTo decl ancestor ∈ module.bindings

variable {path : ClassPath} {project : String} {graph : ObjectGraph}

/-! ## Declared bindings -/

theorem mem_declaredBindings {decl : ClassDecl} (hdecl : decl ∈ path.decls) {ancestor : ClassName}
    (h : StandsIn decl ancestor) : path.bindingTo decl ancestor ∈ path.declaredBindings := by
  obtain ⟨entries, hentries, hentry⟩ := h
  refine List.mem_flatMap.2 ⟨decl, hdecl, ?_⟩
  simp only [readClassBindings, hentries, Logged.value_bind, Logged.value_mapM, Logged.value_pure]
  exact List.mem_filterMap.2 ⟨some (path.bindingTo decl ancestor),
    List.mem_map.2 ⟨.type (.object ancestor), hentry, rfl⟩, rfl⟩

theorem mem_bindings_moduleOf {factories : Arena .factory Factory} {marked book : ContractBook}
    {configured : List (ClassName × Id .contract)} {decl : ClassDecl} {bound : Binding} :
    let sources := path.sourcesOf project factories marked.contracts configured
    let module := path.moduleOf sources book decl
    bound ∈ module.bindings ↔ bound ∈ path.declaredBindings ∧
      ∃ key ∈ moduleKeys sources book module.provisionPoints module.factories module.contracts,
        bound.implementation.boxed = key.boxed := by
  dsimp only
  unfold moduleOf
  split
  · dsimp only
    rw [mem_firsts_id, List.mem_flatMap]
    simp only [show (path.sourcesOf project factories marked.contracts configured).bindings =
      path.readBindings.value from rfl, path.lists_readBindings.mem_ofImplementation]
    constructor
    · rintro ⟨key, hkey, hdeclared, heq⟩
      exact ⟨hdeclared, key, hkey, heq⟩
    · rintro ⟨hdeclared, key, hkey, heq⟩
      exact ⟨key, hkey, hdeclared, heq⟩
  · -- What cannot be read as a module provides nothing, and has no bindings.
    refine iff_of_false List.not_mem_nil ?_
    rintro ⟨-, key, hkey, -⟩
    exact absurd hkey List.not_mem_nil

theorem mem_bindings_iff (hgraph : (path.readGraph project).result = .ok graph) {module : Module}
    (hmodule : module ∈ graph.modules.items) {bound : Binding} :
    bound ∈ module.bindings ↔ bound ∈ path.declaredBindings ∧
      bound.implementation.boxed ∈ (graph.ownKeys module).map Key.boxed := by
  obtain ⟨marked, book, configured, hportrays, -⟩ := portrays_of_readGraph hgraph
  obtain ⟨decl, -, -, hread⟩ :=
    hportrays.exists_decl (Arena.named?_of_mem hportrays.named hmodule)
  -- But for its imports, the module is what was read from its class.
  have hmem := @mem_bindings_moduleOf path project graph.factories marked book configured decl bound
  dsimp only at hmem
  rw [← hread] at hmem
  have hkeys : moduleKeys (path.sourcesOf project graph.factories marked.contracts configured) book
      module.provisionPoints module.factories module.contracts = graph.ownKeys module := by
    rw [moduleKeys, ObjectGraph.ownKeys, ObjectGraph.hostedContracts, hportrays.contracts]
    rfl
  rw [hmem, hkeys, List.mem_map]
  simp only [eq_comm]

theorem mem_bindings_graph_iff (hgraph : (path.readGraph project).result = .ok graph)
    {bound : Binding} : bound ∈ graph.bindings ↔ bound ∈ path.declaredBindings := by
  obtain ⟨marked, book, configured, hportrays, -⟩ := portrays_of_readGraph hgraph
  rw [hportrays.bindings, path.lists_readBindings.mem_all]

/-! ## Hosted constructors -/

theorem exists_injectedConstructor {target : InjectionTarget}
    (h : target ∈ path.readTargets.value.providable) :
    ∃ decl ∈ path.decls, decl.name = target.name ∧
      ∃ constructor, injectedConstructors decl = [constructor] ∧
        target.constructorInjectees = (path.readParameters decl.name constructor).value := by
  rw [providable_readTargets] at h
  obtain ⟨decl, hdecl, hread⟩ := List.mem_filterMap.1 h
  refine ⟨decl, hdecl, (name_of_readTarget hread).symm, ?_⟩
  obtain ⟨constructor, hconstructor⟩ :
      ∃ constructor, injectedConstructors decl = [constructor] := by
    simp only [readTarget, readProvidable, Logged.value_bind, Logged.value_pure] at hread
    split at hread
    · cases hread
    · next constructor hconstructor => exact ⟨constructor, hconstructor⟩
    · cases hread
  obtain ⟨other, hother, -, hinjectees⟩ := path.readTarget_of_injectedConstructors hconstructor
  rw [hread] at hother
  cases hother
  exact ⟨constructor, hconstructor, hinjectees⟩

theorem exists_constructor_of_readConstructorPoint {sources : ModuleSources}
    (hsources : sources.providable = path.readTargets.value.providable) {name : ClassName}
    {point : ProvisionPoint} (h : (path.readConstructorPoint sources name).value = some point) :
    ∃ decl ∈ path.decls, ∃ constructor, injectedConstructors decl = [constructor] ∧
      point = path.constructorPoint decl constructor := by
  unfold readConstructorPoint at h
  split at h
  · next target htarget =>
      split at h
      · next other hother =>
          rw [hsources] at htarget
          have htargetName : target.name = name := by simpa using List.find?_some htarget
          obtain ⟨decl, hdecl, hname, constructor, hinjected, hinjectees⟩ :=
            exists_injectedConstructor (List.mem_of_find?_eq_some htarget)
          obtain rfl : decl.name = name := hname.trans htargetName
          rw [find?_of_mem_decls hdecl] at hother
          obtain rfl := Option.some.inj hother
          refine ⟨decl, hdecl, constructor, hinjected, ?_⟩
          rw [constructorPoint, ← hinjectees]
          exact (Option.some.inj h).symm
      · cases h
  · cases h

theorem mem_pointsOf_of_mem_moduleOf {sources : ModuleSources} {book : ContractBook}
    {decl : ClassDecl} {point : ProvisionPoint}
    (h : point ∈ (path.moduleOf sources book decl).provisionPoints) :
    point ∈ (path.pointsOf decl).value := by
  unfold moduleOf at h
  split at h
  · exact h
  · cases h

theorem exists_constructorPoint (hgraph : (path.readGraph project).result = .ok graph)
    {module : Module} (hmodule : module ∈ graph.modules.items) {point : ProvisionPoint}
    (hpoint : point ∈ module.provisionPoints) (hconstructor : point.IsConstructor) :
    ∃ decl ∈ path.decls, ∃ constructor, injectedConstructors decl = [constructor] ∧
      point = path.constructorPoint decl constructor := by
  obtain ⟨marked, book, configured, hportrays, -⟩ := portrays_of_readGraph hgraph
  obtain ⟨host, -, -, hread⟩ :=
    hportrays.exists_decl (Arena.named?_of_mem hportrays.named hmodule)
  have hpoints : point ∈ { module with imports := [] }.provisionPoints := hpoint
  rw [hread] at hpoints
  exact exists_constructor_of_readConstructorPoint rfl
    (readConstructorPoint_of_mem (mem_pointsOf_of_mem_moduleOf hpoints) hconstructor)

theorem mem_ownKeys_of_hasConstructor (hgraph : (path.readGraph project).result = .ok graph)
    {module : Module} (hmodule : module ∈ graph.modules.items) {decl : ClassDecl}
    (hdecl : decl ∈ path.decls) (h : module.HasConstructor decl.name) :
    ⟨.ofClass decl.name, path.classQualifier decl⟩ ∈ graph.ownKeys module := by
  obtain ⟨point, hpoint, hconstructor, howner⟩ := h
  obtain ⟨other, hother, constructor, -, rfl⟩ :=
    exists_constructorPoint hgraph hmodule hpoint hconstructor
  have hsame : other = decl := List.inj_on_of_nodup_map path.nodup_decls hother hdecl howner
  subst hsame
  exact List.mem_append_left _ (List.mem_append_left _ (List.mem_map_of_mem hpoint))

/-! ## The binding of a class -/

/-- A declared binding is attached by the modules that provide its implementation, and validation
reports it where there is none of them. -/
theorem mem_unattached_iff (hgraph : (path.readGraph project).result = .ok graph)
    {bound : Binding} (hbound : bound ∈ path.declaredBindings) :
    bound ∈ graph.bindings.filter (fun bound => !graph.isAttached bound) ↔
      ∀ module ∈ graph.modules.items,
        bound.implementation.boxed ∉ (graph.ownKeys module).map Key.boxed := by
  have hattached : graph.isAttached bound = true ↔ ∃ module ∈ graph.modules.items,
      bound.implementation.boxed ∈ (graph.ownKeys module).map Key.boxed := by
    simp only [ObjectGraph.isAttached, List.any_eq_true, List.contains_iff_mem]
    refine exists_congr fun module => and_congr_right fun hmodule => ?_
    rw [mem_bindings_iff hgraph hmodule, and_iff_right hbound]
  rw [List.mem_filter, mem_bindings_graph_iff hgraph, and_iff_right hbound, Bool.not_eq_true',
    ← Bool.not_eq_true, hattached]
  simp only [not_exists, not_and]

/-- A class is bound to its ancestors in the modules that provide it without a qualifier, and in no
others. -/
theorem binds_readGraph (hgraph : (path.readGraph project).result = .ok graph) {decl : ClassDecl}
    (hdecl : decl ∈ path.decls) {ancestor : ClassName} (h : StandsIn decl ancestor) :
    path.Binds graph decl ancestor := by
  have hdeclared := mem_declaredBindings hdecl h
  have hmem : ∀ module ∈ graph.modules.items, path.bindingTo decl ancestor ∈ module.bindings ↔
      .ofClass decl.name ∈ (graph.ownKeys module).map Key.boxed := fun module hmodule =>
    (mem_bindings_iff hgraph hmodule).trans (and_iff_right hdeclared)
  have hown : ∀ module ∈ graph.modules.items, module.HasConstructor decl.name →
      ⟨.ofClass decl.name, path.classQualifier decl⟩ ∈ graph.ownKeys module :=
    fun module hmodule => mem_ownKeys_of_hasConstructor hgraph hmodule hdecl
  constructor
  case declared => exact (mem_bindings_graph_iff hgraph).2 hdeclared
  case mem_iff => exact hmem
  case own_key => exact hown
  case of_unqualified =>
    intro hplain module hmodule hconstructor
    have hkey := hown module hmodule hconstructor
    rw [hplain] at hkey
    exact (hmem module hmodule).2 (List.mem_map.2 ⟨_, hkey, rfl⟩)
  case reported_iff => exact mem_unattached_iff hgraph hdeclared

end ClassPath

/-! ## A class with a qualifier -/

namespace Badge

def mark (type listed : ClassName) : Annotation :=
  .set (.ofType type) "value" (.array [.type (.object listed)])

def component : ClassDecl :=
  { ClassDecl.ofClass ⟨"app/App"⟩ with annotations := [.ofType Vocabulary.component] }

/-- A class that is hosted by the component, and stands in for an interface. -/
def service (qualifiers : List ClassName) : ClassDecl :=
  { ClassDecl.ofClass ⟨"app/Service"⟩ with
    interfaces := [⟨"app/Api"⟩]
    annotations := qualifiers.map .ofType ++
      [mark Vocabulary.providedAs ⟨"app/Api"⟩, mark Vocabulary.providedBy ⟨"app/App"⟩]
    methods := [{ MethodDecl.emptyConstructor with annotations := [.ofType Vocabulary.inject] }] }

def path (qualifiers : List ClassName) : ClassPath :=
  [component, ClassDecl.ofInterface ⟨"app/Api"⟩, service qualifiers].foldl ClassPath.addInput ∅

def shown (graph : ObjectGraph) : List (List (ClassName × Origin) × List Binding) :=
  graph.modules.items.map fun module =>
    (module.provisionPoints.map fun point => (point.owner, point.origin), module.bindings)

end Badge

namespace ClassPath

theorem standsIn_badge (qualifiers : List ClassName)
    (h : annotationList? (Badge.service qualifiers).annotations Vocabulary.providedAs =
      some [.type (.object ⟨"app/Api"⟩)]) : StandsIn (Badge.service qualifiers) ⟨"app/Api"⟩ :=
  ⟨_, h, List.mem_cons_self ..⟩

set_option maxRecDepth 100000 in
theorem binds_readGraph_badge :
    ∃ graph, ((Badge.path []).readGraph "main").result = .ok graph ∧
      Badge.shown graph = [([(⟨"app/Service"⟩, .constructor [])],
        [⟨.ofClass ⟨"app/Service"⟩, .ofClass ⟨"app/Api"⟩⟩])] ∧
      (Badge.path []).Binds graph (Badge.service []) ⟨"app/Api"⟩ := by
  have hshown : ((Badge.path []).readGraph "main").result.map Badge.shown =
      .ok [([(⟨"app/Service"⟩, .constructor [])],
        [⟨.ofClass ⟨"app/Service"⟩, .ofClass ⟨"app/Api"⟩⟩])] := by
    decide +kernel
  obtain ⟨graph, hgraph, hmodules⟩ := exists_ok_of_map_eq_ok hshown
  exact ⟨graph, hgraph, hmodules,
    binds_readGraph hgraph (by decide +kernel) (standsIn_badge [] (by decide +kernel))⟩

set_option maxRecDepth 100000 in
/-- Without a fault in its classes, a class with a qualifier is hosted and its binding is not
attached, which validation takes for a fault. -/
theorem qualified_class_not_bound :
    ∃ graph, ((Badge.path [Vocabulary.named]).readGraph "main").result = .ok graph ∧
      faults ((Badge.path [Vocabulary.named]).readGraph "main").events = [] ∧
      ((Badge.path [Vocabulary.named]).validate graph true).faults =
        ["Invalid configuration for dependency: @javax.inject.Named app.Api. " ++
          "app.Service isn't provided by any module"] ∧
      ¬ (Badge.path [Vocabulary.named]).BindsWhereverHosted graph := by
  have hread : ((Badge.path [Vocabulary.named]).readGraph "main").result.map (fun graph =>
      (Badge.shown graph, ((Badge.path [Vocabulary.named]).validate graph true).faults)) =
      .ok ([([(⟨"app/Service"⟩, .constructor [])], [])],
        ["Invalid configuration for dependency: @javax.inject.Named app.Api. " ++
          "app.Service isn't provided by any module"]) := by
    decide +kernel
  obtain ⟨graph, hgraph, hshown⟩ := exists_ok_of_map_eq_ok hread
  refine ⟨graph, hgraph, by decide +kernel, congrArg Prod.snd hshown, fun hbinds => ?_⟩
  have hmodules : Badge.shown graph = [([(⟨"app/Service"⟩, .constructor [])], [])] :=
    congrArg Prod.fst hshown
  obtain ⟨module, hmodule, hparts⟩ : ∃ module ∈ graph.modules.items,
      (module.provisionPoints.map fun point => (point.owner, point.origin), module.bindings) =
        ([(⟨"app/Service"⟩, .constructor [])], []) :=
    List.mem_map.1 (hmodules.symm ▸ List.mem_singleton_self _ : _ ∈ Badge.shown graph)
  rw [Prod.mk.injEq] at hparts
  obtain ⟨hpoints, hbindings⟩ := hparts
  obtain ⟨point, hpoint, hsource⟩ : ∃ point ∈ module.provisionPoints,
      (point.owner, point.origin) = (⟨"app/Service"⟩, .constructor []) :=
    List.mem_map.1 (hpoints ▸ List.mem_cons_self ..)
  rw [Prod.mk.injEq] at hsource
  -- The module hosts the constructor, and has no bindings at all.
  have hmem := hbinds (Badge.service [Vocabulary.named]) (by decide +kernel) ⟨"app/Api"⟩
    (standsIn_badge [Vocabulary.named] (by decide +kernel)) module hmodule
    ⟨point, hpoint, ⟨[], hsource.2⟩, hsource.1⟩
  rw [hbindings] at hmem
  cases hmem

end ClassPath

/-! ## Bindings that are added later -/

namespace ObjectGraph

variable {graph : ObjectGraph} {name : ClassName} {binding : Binding}

theorem isAttached_eq_true_iff {bound : Binding} :
    graph.isAttached bound = true ↔
      ∃ id module, graph.modules.get? id = some module ∧ bound ∈ module.bindings := by
  simp only [isAttached, List.any_eq_true, List.contains_iff_mem]
  constructor
  · rintro ⟨module, hmodule, hbound⟩
    obtain ⟨id, hget⟩ := Arena.exists_get?_of_mem hmodule
    exact ⟨id, module, hget, hbound⟩
  · rintro ⟨id, module, hget, hbound⟩
    exact ⟨module, Arena.mem_items_of_get? hget, hbound⟩

/-- Only what is added to a module that is there becomes attached. -/
theorem isAttached_attachBinding (bound : Binding) :
    (graph.attachBinding name binding).isAttached bound = true ↔
      graph.isAttached bound = true ∨ bound = binding ∧ name ∈ graph.modules.names := by
  rw [attachBinding]
  cases hfind : graph.modules.find? name with
  | none => simp [Arena.not_mem_names_of_find? hfind]
  | some id =>
      have hname : name ∈ graph.modules.names :=
        List.mem_of_getElem? (Arena.nameOf?_of_find? hfind)
      obtain ⟨changed, hchanged⟩ := Arena.exists_get?_iff.2 (Arena.index_lt_of_find? hfind)
      have hget := fun other => graph.modules.get?_modify id other fun module =>
        { module with bindings := module.bindings ++ [binding] }
      simp only [isAttached_eq_true_iff, hget, Option.map_eq_some_iff, and_iff_left hname]
      constructor
      · rintro ⟨other, _, ⟨module, hmodule, rfl⟩, hbound⟩
        split at hbound
        · rcases List.mem_append.1 hbound with hbound | hbound
          · exact .inl ⟨other, module, hmodule, hbound⟩
          · exact .inr (List.mem_singleton.1 hbound)
        · exact .inl ⟨other, module, hmodule, hbound⟩
      · rintro (⟨other, module, hmodule, hbound⟩ | rfl)
        · refine ⟨other, _, ⟨module, hmodule, rfl⟩, ?_⟩
          split
          · exact List.mem_append_left _ hbound
          · exact hbound
        · refine ⟨id, _, ⟨changed, hchanged, rfl⟩, ?_⟩
          rw [if_pos rfl]
          exact List.mem_append_right _ (List.mem_singleton_self _)

theorem unattachedFaults_declareBinding :
    (graph.declareBinding binding).unattachedFaults = graph.unattachedFaults ++
      if graph.isAttached binding then [] else
        ["Invalid configuration for dependency: " ++ binding.ancestor.display ++ ". " ++
          binding.implementation.display ++ " isn't provided by any module"] := by
  rw [unattachedFaults, declareBinding, List.filter_append, List.map_append]
  refine congrArg _ ?_
  change ([binding].filter fun bound => !graph.isAttached bound).map _ = _
  cases hattached : graph.isAttached binding <;> simp [hattached]

/-- A binding that is declared and attached to a module adds no fault. -/
theorem unattachedFaults_declareBinding_attachBinding (hname : name ∈ graph.modules.names) :
    ((graph.attachBinding name binding).declareBinding binding).unattachedFaults.Sublist
      graph.unattachedFaults := by
  have hattached := (@isAttached_attachBinding graph name binding binding).2 (.inr ⟨rfl, hname⟩)
  have hbindings : (graph.attachBinding name binding).bindings = graph.bindings := by
    rw [attachBinding]
    split <;> rfl
  rw [unattachedFaults_declareBinding, hattached, if_pos rfl, List.append_nil, unattachedFaults,
    unattachedFaults, hbindings]
  refine (List.monotone_filter_right _ fun bound hbound => ?_).map _
  rw [Bool.not_eq_true', ← Bool.not_eq_true, isAttached_attachBinding, not_or] at hbound
  rw [Bool.not_eq_true', ← Bool.not_eq_true]
  exact hbound.1

end ObjectGraph

end InjectionCompiler
