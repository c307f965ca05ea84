import InjectionCompiler.Proofs.Closure
import InjectionCompiler.Proofs.Compilation
import InjectionCompiler.Proofs.Overriding

/-!
# The arguments of factory methods

A method of a factory calls the one constructor that its class offers to factories.  Where nothing
is reported, each parameter of the constructor has an argument in its place: one that the injector
supplies, or the only parameter of the method that asks for the same.
-/

namespace InjectionCompiler

/-- The parameter of the factory method that is passed on. -/
def FactoryArgument.position? : FactoryArgument → Option Nat
  | .injected _ => none
  | .passed _ index => some index

namespace ClassPath

/-! ## What parameters ask for -/

/-- What a parameter asks for, by its type and its annotations. -/
def parameterDependency (path : ClassPath) (parameter : ParameterDecl) : Dependency :=
  (path.readInjectee parameter.type parameter.annotations "").value

variable {path : ClassPath} {decl : ClassDecl} {method constructor : MethodDecl}

theorem value_readQualifier (annotations : List Annotation) (element : String) :
    (path.readQualifier annotations element).value = (path.qualifiers annotations).head? := by
  unfold readQualifier
  split
  · next hnone =>
      rw [hnone]
      rfl
  · next hone =>
      rw [hone]
      rfl
  · next hmany =>
      rw [hmany]
      rfl

theorem value_readDependency (type : Signature) (qualifier : Option Annotation)
    (element other : String) : (readDependency type qualifier element).value =
      (readDependency type qualifier other).value := by
  unfold readDependency
  split <;> rfl

theorem value_readInjectee (type : Signature) (annotations : List Annotation)
    (element other : String) : (path.readInjectee type annotations element).value =
      (path.readInjectee type annotations other).value := by
  rw [readInjectee, readInjectee, Logged.value_bind, Logged.value_bind, value_readQualifier,
    value_readQualifier]
  exact value_readDependency ..

theorem value_readParameters (owner : ClassName) (method : MethodDecl) :
    (path.readParameters owner method).value =
      method.parameters.map path.parameterDependency := by
  rw [readParameters, Logged.value_mapM]
  exact Wiring.map_zipIdx _ _ (fun _ => value_readInjectee ..) _

/-! ## Matching arguments -/

/-- The parameter at the place asks for the dependency, with primitive types boxed. -/
def Offers (path : ClassPath) (method : MethodDecl) (index : Nat) (dependency : Dependency) :
    Prop :=
  ∃ parameter, method.parameters[index]? = some parameter ∧
    (path.parameterDependency parameter).key.boxed = dependency.key.boxed ∧
      (path.parameterDependency parameter).delivery = dependency.delivery

/-- The argument supplies a parameter of the constructor that the method calls. -/
structure Supplies (path : ClassPath) (method : MethodDecl) (parameter : ParameterDecl)
    (argument : FactoryArgument) : Prop where
  dependency : argument.dependency = path.parameterDependency parameter
  passed : argument.position?.isSome =
    isAnnotated parameter.annotations Vocabulary.factoryParameter
  only : ∀ index, argument.position? = some index →
    ∀ other, path.Offers method other argument.dependency ↔ other = index

/-- The point of the factory is the method, and it calls the constructor with an argument for each
parameter. -/
structure Aligns (path : ClassPath) (decl : ClassDecl) (point : FactoryMethod)
    (method constructor : MethodDecl) : Prop where
  declared : (point.owner, method) ∈ path.factoryMethods decl
  name : point.method = method.name
  single : ∃ target, path.find? point.implementation = some target ∧
    target.constructors.filter (·.isAnnotated Vocabulary.factoryInject) = [constructor]
  arguments : List.Forall₂ (path.Supplies method) constructor.parameters point.arguments

theorem offers_iff {index : Nat} {dependency : Dependency} :
    path.Offers method index dependency ↔
      ∃ offered, (method.parameters.map path.parameterDependency)[index]? = some offered ∧
        offered.boxed = dependency.boxed := by
  simp only [Offers, List.getElem?_map, Option.map_eq_some_iff, exists_exists_and_eq_and,
    Dependency.boxed, Dependency.mk.injEq]

theorem supplies_of_readFactoryArgument {factory implementation : ClassName}
    {parameter : ParameterDecl} {argument : Option FactoryArgument}
    (hnodup : ((method.parameters.map path.parameterDependency).map Dependency.boxed).Nodup)
    (hvalue : argument = (readFactoryArgument factory implementation
      (method.parameters.map path.parameterDependency) parameter
      (path.parameterDependency parameter)).value)
    (hquiet : (readFactoryArgument factory implementation
      (method.parameters.map path.parameterDependency) parameter
      (path.parameterDependency parameter)).faults = []) :
    ∃ read, argument = some read ∧ path.Supplies method parameter read := by
  unfold readFactoryArgument at hvalue hquiet
  split at hvalue
  · next hpassed =>
      rw [if_pos hpassed] at hquiet
      split at hvalue
      · next index hindex =>
          refine ⟨_, hvalue, rfl, hpassed.symm, ?_⟩
          rintro _ ⟨⟩ other
          rw [offers_iff]
          exact exists_getElem?_iff_of_findIdx? hnodup hindex other
      · next hmissing =>
          rw [hmissing, Logged.faults_bind] at hquiet
          cases hquiet
  · next hinjected =>
      refine ⟨_, hvalue, rfl, ?_, fun index h => by cases h⟩
      exact (Bool.not_eq_true _ ▸ hinjected).symm

theorem aligns_of_reports_nil {declared : ClassName × MethodDecl}
    (hdeclared : declared ∈ path.factoryMethods decl) {read : Option FactoryMethod}
    (h : (path.readFactoryMethod decl declared.1 declared.2).Reports read []) :
    ∃ point, read = some point ∧ ∃ constructor, path.Aligns decl point declared.2 constructor := by
  obtain ⟨point, target, constructor, arguments, rfl, howner, hname, harguments, htarget, hfilter,
    hrepeats, hread⟩ := exists_steps_of_readFactoryMethod h
  refine ⟨point, rfl, constructor, ?_, hname, ⟨target, htarget, hfilter⟩, ?_⟩
  · rwa [howner]
  · rw [value_readParameters] at hrepeats
    have hnodup := nodup_map_of_repeats_eq_nil hrepeats
    simp only [value_readParameters, ← List.map_prod_left_eq_zip, List.forall₂_map_left_iff]
      at hread
    rw [harguments]
    exact forall₂_filterMap_id (hread.imp fun parameter argument hread =>
      supplies_of_readFactoryArgument hnodup hread.1 hread.2)

theorem exists_aligns_of_readFactory {factory : Factory}
    (h : (path.readFactory decl).Reports factory []) :
    ∀ point ∈ factory.methods, ∃ method constructor, path.Aligns decl point method constructor := by
  simp only [readFactory, Work.reports_bind_nil, Work.reports_pure] at h
  obtain ⟨_, -, _, -, read, hread, rfl, -⟩ := h
  intro point hpoint
  obtain ⟨read, hmem, rfl⟩ := List.mem_filterMap.1 hpoint
  obtain ⟨declared, hdeclared, hread⟩ :=
    exists_left_of_forall₂ (Work.forall₂_of_mapM_reports_nil hread) hmem
  obtain ⟨_, ⟨⟩, constructor, haligns⟩ := aligns_of_reports_nil hdeclared hread
  exact ⟨declared.2, constructor, haligns⟩

theorem exists_decl_of_mem_factories {project : String} {graph : ObjectGraph}
    (h : (path.readGraph project).Reports graph []) {factory : Factory}
    (hfactory : factory ∈ graph.factories.items) :
    ∃ decl, path.find? factory.name = some decl ∧ (path.readFactory decl).Reports factory [] := by
  obtain ⟨marked, book, configured, hportrays, -⟩ := portrays_of_readGraph h.1
  rw [Arena.items, Table.values, hportrays.factories, List.map_map] at hfactory
  obtain ⟨_, hmem, rfl⟩ := List.mem_map.1 hfactory
  obtain ⟨decl, hdecl, hread⟩ := List.mem_filterMap.1 hmem
  have hname := name_of_factoryOf? hread
  unfold factoryOf? at hread
  split at hread
  · next hmarked =>
      obtain ⟨other, -, hother⟩ := exists_factory_of_readGraph h hdecl hmarked
      rw [hother.1] at hread
      cases hread
      exact ⟨decl, hname ▸ find?_of_mem_decls hdecl, hother⟩
  · cases hread

end ClassPath

/-! ## Arguments in units -/

namespace Plan

/-- The argument of a unit has the same source as that of the factory. -/
inductive Carries (plan : Plan) : FactoryArgument → UnitArgument → Prop where
  | injected {dependency : Dependency} {reference : DependencyReference} :
      plan.referTo dependency.key = .ok reference.key →
        reference.delivery = dependency.delivery →
          Carries plan (.injected dependency) (.injector reference)
  | passed {dependency : Dependency} {index : Nat} :
      Carries plan (.passed dependency index) (.parameter index)

/-- The unit has the methods of the factory, each with the arguments in their places. -/
structure Writes (plan : Plan) (factory : Factory) (unit : FactoryUnit) : Prop where
  name : unit.name = factory.implementation
  implements : unit.factory = factory.name
  methods : List.Forall₂ (fun (point : FactoryMethod) (written : FactoryMethodUnit) =>
    written.name = point.method ∧ written.implementation = point.implementation ∧
      List.Forall₂ plan.Carries point.arguments written.arguments) factory.methods unit.methods

/-- The units of factories are those of the factories of the input. -/
structure WritesFactories (plan : Plan) (path : ClassPath) (graph : ObjectGraph) : Prop where
  written : ∀ factory ∈ graph.factories.items, path.isInput factory.name = true →
    ∃ unit, (unit.name, .ok (.factory unit)) ∈ plan.units graph ∧ plan.Writes factory unit
  only : ∀ name unit, (name, .ok (.factory unit)) ∈ plan.units graph →
    ∃ factory ∈ graph.factories.items, path.isInput factory.name = true ∧ plan.Writes factory unit

variable {plan : Plan}

theorem carries_of_unitArgument {argument : FactoryArgument} {written : UnitArgument}
    (h : plan.unitArgument argument = .ok written) : plan.Carries argument written := by
  cases argument with
  | passed dependency index =>
      cases h
      exact .passed
  | injected dependency =>
      obtain ⟨reference, hreference, h⟩ := bind_eq_ok.1 h
      cases h
      obtain ⟨hkey, hdelivery⟩ := referToDependency_eq_ok.1 hreference
      exact .injected hkey hdelivery

theorem exists_writes_of_factoryUnit {factory : Factory} {written : GeneratedUnit}
    (h : plan.factoryUnit factory = .ok written) :
    ∃ unit, written = .factory unit ∧ plan.Writes factory unit := by
  obtain ⟨methods, hmethods, h⟩ := bind_eq_ok.1 h
  cases h
  refine ⟨_, rfl, rfl, rfl, (forall₂_of_mapM_eq_ok hmethods).imp fun point method hmethod => ?_⟩
  obtain ⟨arguments, harguments, hmethod⟩ := bind_eq_ok.1 hmethod
  cases hmethod
  exact ⟨rfl, rfl, (forall₂_of_mapM_eq_ok harguments).imp fun _ _ => carries_of_unitArgument⟩

end Plan

namespace Compilation

variable {run : Compilation} {graph : ObjectGraph} {plan : Plan} {project : String}

theorem writesFactories_plan (hgraph : (run.path.readGraph project).result = .ok graph)
    (hplan : (run.plan graph).value.1 = .ok plan) : plan.WritesFactories run.path graph := by
  obtain ⟨assigned, hcomplete⟩ := exists_complete hgraph hplan
  have hlisted := fun factory => @Plan.mem_factories_iff _ _ _ _ _ _ (ends_plan hplan) factory
  constructor
  case written =>
    intro factory hfactory hinput
    have hmem := (hlisted factory).2 ⟨hfactory, hinput⟩
    obtain ⟨id, hid, hget⟩ := List.mem_filterMap.1 hmem
    obtain ⟨written, hwritten, -⟩ := Plan.exists_factoryUnit hcomplete hid hget
    obtain ⟨unit, rfl, hwrites⟩ := Plan.exists_writes_of_factoryUnit hwritten
    exact ⟨unit, Plan.mem_units_iff.2 ⟨⟨factory, hmem, hwritten⟩, rfl⟩, hwrites⟩
  case only =>
    intro name unit hunit
    obtain ⟨⟨factory, hmem, hbuilt⟩, -⟩ := Plan.mem_units_iff.1 hunit
    obtain ⟨hfactory, hinput⟩ := (hlisted factory).1 hmem
    obtain ⟨_, ⟨⟩, hwrites⟩ := Plan.exists_writes_of_factoryUnit hbuilt
    exact ⟨factory, hfactory, hinput, hwrites⟩

/-- Where nothing is reported, the arguments of factory methods line up with the constructors that
they are for, and the units of the factories carry them in the same places. -/
theorem factory_arguments_line_up {run : Compilation} {graph : ObjectGraph}
    (h : (run.path.readGraph run.config.project).Reports graph []) :
    (∀ factory ∈ graph.factories.items, ∃ decl, run.path.find? factory.name = some decl ∧
      ∀ point ∈ factory.methods, ∃ method constructor,
        run.path.Aligns decl point method constructor) ∧
      ∀ plan, (run.plan graph).value.1 = .ok plan → plan.WritesFactories run.path graph := by
  refine ⟨fun factory hfactory => ?_, fun plan hplan => writesFactories_plan h.1 hplan⟩
  obtain ⟨decl, hdecl, hread⟩ := ClassPath.exists_decl_of_mem_factories h hfactory
  exact ⟨decl, hdecl, ClassPath.exists_aligns_of_readFactory hread⟩

end Compilation

/-! ## A bakery -/

namespace Bakery

def flour : Signature := .ofClass ⟨"town/Flour"⟩

def supplied (type : Signature) : ParameterDecl :=
  ⟨type, [.ofType Vocabulary.factoryParameter]⟩

def bakery : ClassDecl :=
  { ClassDecl.ofInterface ⟨"town/Bakery"⟩ with
    annotations := [.ofType Vocabulary.factory]
    methods := [{ MethodDecl.emptyConstructor with
      name := "bake"
      parameters := [⟨.erased (.primitive .int), []⟩, ⟨flour, []⟩,
        ⟨.applied Vocabulary.provider [flour], []⟩]
      returns := .ofClass ⟨"town/Bread"⟩ }] }

def bread : ClassDecl :=
  { ClassDecl.ofClass ⟨"town/Bread"⟩ with
    methods := [{ MethodDecl.emptyConstructor with
      annotations := [.ofType Vocabulary.factoryInject]
      parameters := [supplied (.applied Vocabulary.provider [flour]),
        ⟨.applied Vocabulary.lazy [.ofClass ⟨"town/Oven"⟩], []⟩,
        supplied (.ofClass ⟨"java/lang/Integer"⟩)] }] }

def run : Compilation where
  path := [bakery, bread].foldl ClassPath.addInput ∅
  compiled := []
  config := .default
  time := ""

def places (graph : ObjectGraph) : List (List (Option Nat)) :=
  graph.factories.items.flatMap fun factory =>
    factory.methods.map fun point => point.arguments.map FactoryArgument.position?

end Bakery

namespace Compilation

set_option maxRecDepth 100000 in
theorem factory_arguments_line_up_bakery :
    ∃ graph plan, (Bakery.run.path.readGraph Bakery.run.config.project).Reports graph [] ∧
      Bakery.places graph = [[some 2, none, some 0]] ∧
        (Bakery.run.plan graph).value.1 = .ok plan ∧
          (∀ factory ∈ graph.factories.items,
            ∃ decl, Bakery.run.path.find? factory.name = some decl ∧
              ∀ point ∈ factory.methods, ∃ method constructor,
                Bakery.run.path.Aligns decl point method constructor) ∧
            plan.WritesFactories Bakery.run.path graph := by
  have hplaces : ((Bakery.run.path.readGraph Bakery.run.config.project).result >>= fun graph =>
      (Bakery.run.plan graph).value.1.map fun _ => Bakery.places graph) =
        .ok [[some 2, none, some 0]] := by
    decide +kernel
  have hquiet : faults (Bakery.run.path.readGraph Bakery.run.config.project).events = [] := by
    decide +kernel
  obtain ⟨graph, hgraph, hplaces⟩ := bind_eq_ok.1 hplaces
  obtain ⟨plan, hplan, hplaces⟩ := exists_ok_of_map_eq_ok hplaces
  obtain ⟨hlined, hwrites⟩ := factory_arguments_line_up ⟨hgraph, hquiet⟩
  exact ⟨graph, plan, ⟨hgraph, hquiet⟩, hplaces, hplan, hlined, hwrites plan hplan⟩

end Compilation

end InjectionCompiler
