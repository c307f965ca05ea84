import InjectionCompiler.Proofs.Declarations
import InjectionCompiler.Proofs.Reports

/-!
# Which methods a factory implements

A factory has the methods of its interface and of the interfaces that this extends.  A nearer method
takes the place of farther ones of the same name, whatever their parameters are.
-/

namespace InjectionCompiler

namespace ClassPath

/-! ## Declared methods -/

/-- The interfaces whose methods a factory has: its own and all that it extends, nearest first. -/
def factoryInterfaces (path : ClassPath) (decl : ClassDecl) : List ClassDecl :=
  decl :: (path.knownAncestors decl.name).filter (·.isInterface)

/-- No method of the same name stands in front of this one, neither in a nearer interface nor in the
one that declares it. -/
def IsFirstOfName (path : ClassPath) (decl owner : ClassDecl) (method : MethodDecl) : Prop :=
  ∃ nearer farther earlier later,
    path.factoryInterfaces decl = nearer ++ owner :: farther ∧
      instanceMethods owner = earlier ++ method :: later ∧
        (∀ other ∈ nearer, ∀ hidden ∈ instanceMethods other, hidden.name ≠ method.name) ∧
          ∀ hidden ∈ earlier, hidden.name ≠ method.name

/-- The method is declared by an interface of the factory, and none that is nearer declares it with
the same name and parameters. -/
def IsRequired (path : ClassPath) (decl owner : ClassDecl) (method : MethodDecl) : Prop :=
  ∃ nearer farther, path.factoryInterfaces decl = nearer ++ owner :: farther ∧
    method ∈ instanceMethods owner ∧
      ∀ other ∈ nearer, ∀ hidden ∈ instanceMethods other,
        ¬ (hidden.name = method.name ∧
          hidden.parameters.map ParameterDecl.type = method.parameters.map ParameterDecl.type)

/-- The method of the factory is read from this declaration. -/
structure Represents (path : ClassPath) (decl : ClassDecl) (declared : ClassName × MethodDecl)
    (point : FactoryMethod) : Prop where
  owner : point.owner = declared.1
  method : point.method = declared.2.name
  read : (path.readFactoryMethod decl declared.1 declared.2).result = .ok (some point)

variable {path : ClassPath} {decl owner : ClassDecl} {method : MethodDecl}

theorem IsFirstOfName.mem_factoryMethods (h : path.IsFirstOfName decl owner method) :
    (owner.name, method) ∈ path.factoryMethods decl := by
  obtain ⟨nearer, farther, earlier, later, hinterfaces, hmethods, hnearer, hearlier⟩ := h
  have hdeclared : path.factoryMethods decl = firsts (fun declared => declared.2.name)
      ((path.factoryInterfaces decl).flatMap fun owner =>
        (instanceMethods owner).map fun method => (owner.name, method)) := rfl
  rw [hdeclared, mem_firsts_iff, hinterfaces, List.flatMap_append, List.flatMap_cons, hmethods,
    List.map_append, List.map_cons, List.append_assoc, List.find?_append, List.find?_append]
  -- A search for the name passes everything in front of the method.
  have hnone : (nearer.flatMap fun owner =>
      (instanceMethods owner).map fun method => (owner.name, method)).find?
        (fun declared => declared.2.name = method.name) = none := by
    simp only [List.find?_eq_none, List.mem_flatMap, List.mem_map, decide_eq_true_eq]
    rintro _ ⟨other, hother, hidden, hhidden, rfl⟩
    exact hnearer other hother hidden hhidden
  have hnone' : (earlier.map fun method => (owner.name, method)).find?
      (fun declared => declared.2.name = method.name) = none := by
    simp only [List.find?_eq_none, List.mem_map, decide_eq_true_eq]
    rintro _ ⟨hidden, hhidden, rfl⟩
    exact hearlier hidden hhidden
  rw [hnone, hnone']
  simp

end ClassPath

/-! ## Reading without faults -/

/-- Logged work that gives an answer unless it reports a fault. -/
def Logged.Candid {α : Type} (logged : Logged (Option α)) : Prop :=
  logged.faults = [] → logged.value.isSome = true

namespace Logged.Candid

variable {α : Type}

theorem pure (value : α) : (pure (some value) : Logged (Option α)).Candid :=
  fun _ => rfl

theorem report (message : String) (next : Unit → Logged (Option α)) :
    (report message >>= next).Candid := by
  intro h
  rw [faults_bind, faults_report] at h
  cases h

end Logged.Candid

namespace ClassPath

variable {path : ClassPath} {decl : ClassDecl}

theorem candid_readImplementation (method : MethodDecl) (context : String) :
    (readImplementation decl method context).Candid := by
  unfold readImplementation
  dsimp only
  split
  · split
    · exact .pure _
    · exact .report _ _
    · exact .report _ _
  · split
    · exact .pure _
    · exact .report _ _

theorem candid_readFactoryConstructor (target : ClassDecl) (context : String) :
    (readFactoryConstructor target context).Candid := by
  unfold readFactoryConstructor
  split
  · exact .pure _
  · exact .report _ _
  · exact .report _ _

theorem filter_of_readFactoryConstructor {target : ClassDecl} {context : String}
    {constructor : MethodDecl}
    (h : (readFactoryConstructor target context).value = some constructor) :
    target.constructors.filter (·.isAnnotated Vocabulary.factoryInject) = [constructor] := by
  unfold readFactoryConstructor at h
  split at h
  · next hfilter =>
      cases h
      exact hfilter
  · cases h
  · cases h

theorem forall₂_filterMap_id {α β : Type} {Related : α → β → Prop} {xs : List α}
    {ys : List (Option β)} (h : List.Forall₂ (fun x y => ∃ z, y = some z ∧ Related x z) xs ys) :
    List.Forall₂ Related xs (ys.filterMap id) := by
  induction h with
  | nil => exact .nil
  | cons hhead _ ih =>
      obtain ⟨z, rfl, hrelated⟩ := hhead
      exact .cons hrelated ih

theorem exists_steps_of_readFactoryMethod {owner : ClassName} {method : MethodDecl}
    {read : Option FactoryMethod}
    (h : (path.readFactoryMethod decl owner method).Reports read []) :
    ∃ point target constructor arguments, read = some point ∧ point.owner = owner ∧
      point.method = method.name ∧ point.arguments = arguments.filterMap id ∧
      path.find? point.implementation = some target ∧
      target.constructors.filter (·.isAnnotated Vocabulary.factoryInject) = [constructor] ∧
      repeats Dependency.boxed (path.readParameters decl.name method).value = [] ∧
      List.Forall₂ (fun needed argument =>
          let read := readFactoryArgument decl.name point.implementation
            (path.readParameters decl.name method).value needed.1 needed.2
          argument = read.value ∧ read.faults = [])
        (constructor.parameters.zip (path.readParameters point.implementation constructor).value)
        arguments := by
  unfold readFactoryMethod at h
  dsimp only at h
  split at h
  · obtain ⟨_, hreport, -⟩ := Work.reports_bind_nil.1 h
    exact absurd (Work.reports_logged_nil.1 hreport).2 (List.cons_ne_nil _ _)
  simp only [Work.reports_bind_nil, Work.reports_logged_nil] at h
  obtain ⟨implementation, ⟨rfl, hquiet⟩, h⟩ := h
  obtain ⟨implementation, himplementation⟩ :=
    Option.isSome_iff_exists.1 (candid_readImplementation _ _ hquiet)
  rw [himplementation] at h
  dsimp only at h
  split at h
  · next target htarget =>
      simp only [Work.reports_bind_nil, Work.reports_logged_nil] at h
      obtain ⟨constructor, ⟨rfl, hquiet⟩, h⟩ := h
      obtain ⟨constructor, hconstructor⟩ :=
        Option.isSome_iff_exists.1 (candid_readFactoryConstructor _ _ hquiet)
      rw [hconstructor] at h
      simp only [Work.reports_bind_nil, Work.reports_logged_nil, Work.reports_pure] at h
      obtain ⟨_, ⟨rfl, -⟩, _, hrepeats, _, ⟨rfl, -⟩, arguments, harguments, _, -, rfl, -⟩ := h
      refine ⟨_, target, constructor, arguments, rfl, rfl, rfl, rfl, htarget,
        filter_of_readFactoryConstructor hconstructor, ?_, ?_⟩
      · -- Each repeated argument is reported.
        refine List.eq_nil_iff_forall_not_mem.2 fun argument hargument => ?_
        have hreport := Work.reports_of_forM_nil hrepeats argument hargument
        exact absurd (Work.reports_logged_nil.1 hreport).2 (List.cons_ne_nil _ _)
      · exact (Work.forall₂_of_mapM_reports_nil harguments).imp fun _ _ hread =>
          Work.reports_logged_nil.1 hread
  · exact absurd h (Work.not_reports_throw _)

theorem represents_of_reports_nil {declared : ClassName × MethodDecl}
    {read : Option FactoryMethod}
    (h : (path.readFactoryMethod decl declared.1 declared.2).Reports read []) :
    ∃ point, read = some point ∧ path.Represents decl declared point := by
  obtain ⟨point, _, _, _, rfl, howner, hmethod, -⟩ := exists_steps_of_readFactoryMethod h
  exact ⟨point, rfl, howner, hmethod, h.1⟩

theorem represents_of_readFactory {factory : Factory}
    (h : (path.readFactory decl).Reports factory []) :
    List.Forall₂ (path.Represents decl) (path.factoryMethods decl) factory.methods := by
  simp only [readFactory, Work.reports_bind_nil, Work.reports_pure] at h
  obtain ⟨_, -, _, -, read, hread, rfl, -⟩ := h
  have hpoints := (Work.forall₂_of_mapM_reports_nil hread).imp fun declared _ hread =>
    represents_of_reports_nil hread
  exact forall₂_filterMap_id hpoints

/-! ## The factories of a graph -/

/-- Each wanted method has a point of its own in the factory. -/
def Implements (path : ClassPath) (decl : ClassDecl) (factory : Factory)
    (wanted : ClassDecl → MethodDecl → Prop) : Prop :=
  ∃ declared, List.Forall₂ (path.Represents decl) declared factory.methods ∧
    ∀ owner method, wanted owner method → (owner.name, method) ∈ declared

/-- Each class that is marked as a factory has one in the graph, with the wanted methods. -/
def FactoriesImplement (path : ClassPath) (graph : ObjectGraph)
    (wanted : ClassDecl → ClassDecl → MethodDecl → Prop) : Prop :=
  ∀ decl ∈ path.decls, decl.isAnnotated Vocabulary.factory = true →
    ∃ factory, graph.factories.named? decl.name = some factory ∧
      path.Implements decl factory (wanted decl)

variable {project : String} {graph : ObjectGraph}

theorem exists_factory_of_readGraph (h : (path.readGraph project).Reports graph [])
    (hdecl : decl ∈ path.decls) (hmarked : decl.isAnnotated Vocabulary.factory = true) :
    ∃ factory, graph.factories.named? decl.name = some factory ∧
      (path.readFactory decl).Reports factory [] := by
  obtain ⟨marked, book, configured, hportrays, hcount⟩ := portrays_of_readGraph h.1
  rw [Work.faultCount, h.2, List.length_nil, Nat.le_zero] at hcount
  simp only [graphToll, Toll.faults_add, Nat.add_eq_zero_iff] at hcount
  have hmarks := Toll.faults_eq_zero_of_sum hcount.2.2.1
    (List.mem_map_of_mem (f := path.markedToll loose) hdecl)
  have hquiet : (path.readFactory decl).faultCount = 0 := by
    rw [markedToll, factoryToll, if_pos hmarked, Toll.faults_add, Nat.add_eq_zero_iff] at hmarks
    exact hmarks.1
  have hread := hportrays.factories_read decl hdecl
  rw [hmarked] at hread
  obtain ⟨factory, hfactory⟩ := Option.isSome_iff_exists.1 hread
  refine ⟨factory, ?_, ?_, List.length_eq_zero_iff.1 hquiet⟩
  · rw [← name_of_factoryOf? hfactory, Arena.named?, Table.find?_eq_some_iff, hportrays.factories]
    exact List.mem_map.2 ⟨factory, List.mem_filterMap.2 ⟨decl, hdecl, hfactory⟩, rfl⟩
  · rw [factoryOf?, if_pos hmarked] at hfactory
    cases hresult : (path.readFactory decl).result with
    | error failure =>
        rw [hresult] at hfactory
        cases hfactory
    | ok read =>
        rw [hresult] at hfactory
        cases hfactory
        rfl

/-- Where a path is read without a fault, its factories have the first method of each name. -/
theorem factories_implement_firsts (h : (path.readGraph project).Reports graph []) :
    path.FactoriesImplement graph path.IsFirstOfName := by
  intro decl hdecl hmarked
  obtain ⟨factory, hnamed, hread⟩ := exists_factory_of_readGraph h hdecl hmarked
  exact ⟨factory, hnamed, path.factoryMethods decl, represents_of_readFactory hread,
    fun _ _ hfirst => hfirst.mem_factoryMethods⟩

end ClassPath

/-! ## A kitchen -/

namespace Kitchen

def cooking (name : String) (ingredient : ClassName) : MethodDecl :=
  { MethodDecl.emptyConstructor with
    name := name
    parameters := [⟨.ofClass ingredient, []⟩]
    returns := .ofClass ⟨"inn/Meal"⟩ }

def pantry : ClassDecl :=
  { ClassDecl.ofInterface ⟨"inn/Pantry"⟩ with
    methods := [cooking "cook" ⟨"inn/Spice"⟩, cooking "bake" ⟨"inn/Flour"⟩] }

def kitchen : ClassDecl :=
  { ClassDecl.ofInterface ⟨"inn/Kitchen"⟩ with
    annotations := [.ofType Vocabulary.factory]
    interfaces := [pantry.name]
    methods := [cooking "cook" ⟨"inn/Fish"⟩, cooking "cook" ⟨"inn/Roast"⟩] }

def meal : ClassDecl :=
  { ClassDecl.ofClass ⟨"inn/Meal"⟩ with
    methods := [{ MethodDecl.emptyConstructor with
      annotations := [.ofType Vocabulary.factoryInject] }] }

def path : ClassPath :=
  [pantry, kitchen, meal].foldl ClassPath.addInput ∅

def methods (graph : ObjectGraph) : List (ClassName × List String) :=
  graph.factories.items.map fun factory =>
    (factory.name, factory.methods.map FactoryMethod.method)

def declared : List (ClassName × MethodDecl) :=
  (ClassPath.instanceMethods kitchen).map (kitchen.name, ·) ++
    (ClassPath.instanceMethods pantry).map (pantry.name, ·)

theorem interfaces_kitchen : path.factoryInterfaces kitchen = [kitchen, pantry] := by
  decide +kernel

end Kitchen

namespace ClassPath

set_option maxRecDepth 100000 in
theorem factories_implement_firsts_kitchen :
    ∃ graph, (Kitchen.path.readGraph "main").Reports graph [] ∧
      Kitchen.methods graph = [(Kitchen.kitchen.name, ["cook", "bake"])] ∧
        Kitchen.path.FactoriesImplement graph Kitchen.path.IsFirstOfName := by
  have hmethods : (Kitchen.path.readGraph "main").result.map Kitchen.methods =
      .ok [(Kitchen.kitchen.name, ["cook", "bake"])] := by
    decide +kernel
  have hquiet : faults (Kitchen.path.readGraph "main").events = [] := by decide +kernel
  obtain ⟨graph, hgraph, hmethods⟩ := exists_ok_of_map_eq_ok hmethods
  exact ⟨graph, ⟨hgraph, hquiet⟩, hmethods, factories_implement_firsts ⟨hgraph, hquiet⟩⟩

set_option maxRecDepth 100000 in
/-- Of the three ways to cook, own or inherited, the factory has one. -/
theorem overloads_not_implemented :
    ∃ graph, (Kitchen.path.readGraph "main").Reports graph [] ∧
      ¬ Kitchen.path.FactoriesImplement graph Kitchen.path.IsRequired := by
  have hmethods : (Kitchen.path.readGraph "main").result.map (fun graph =>
      (graph.factories.named? Kitchen.kitchen.name).map fun factory => factory.methods.length) =
        .ok (some 2) := by
    decide +kernel
  have hquiet : faults (Kitchen.path.readGraph "main").events = [] := by decide +kernel
  obtain ⟨graph, hgraph, hmethods⟩ := exists_ok_of_map_eq_ok hmethods
  refine ⟨graph, ⟨hgraph, hquiet⟩, fun himplement => ?_⟩
  obtain ⟨factory, hnamed, declared, hrepresents, hall⟩ :=
    himplement Kitchen.kitchen (by decide +kernel) (by decide +kernel)
  rw [hnamed] at hmethods
  have hlength : declared.length = 2 :=
    hrepresents.length_eq.trans (Option.some.inj hmethods)
  have hwanted : ∀ entry ∈ Kitchen.declared, entry ∈ declared := by
    intro entry hentry
    rcases List.mem_append.1 hentry with hown | hinherited
    · obtain ⟨method, hmethod, rfl⟩ := List.mem_map.1 hown
      exact hall _ _ ⟨[], [Kitchen.pantry], Kitchen.interfaces_kitchen, hmethod,
        fun _ h => absurd h List.not_mem_nil⟩
    · obtain ⟨method, hmethod, rfl⟩ := List.mem_map.1 hinherited
      refine hall _ _ ⟨[Kitchen.kitchen], [], Kitchen.interfaces_kitchen, hmethod, ?_⟩
      revert method
      decide +kernel
  have hnodup : Kitchen.declared.Nodup := by decide +kernel
  have hle := hnodup.length_le_of_subset hwanted
  rw [hlength] at hle
  exact absurd hle (by decide +kernel)

end ClassPath

end InjectionCompiler
