import InjectionCompiler.Proofs.Attachment
import InjectionCompiler.Proofs.Delivery
import InjectionCompiler.Proofs.Planning

/-!
# Plans that can be built

Not every type stands for a class, and a name or a class literal can only be made of one that does.
Still the types of the compiled classes never get in the way: providers are named after classes, and
whatever other type a unit refers to has a slot in the key registry.
-/

namespace InjectionCompiler

/-- There was no name left. -/
def Failure.IsExhausted (failure : Failure) : Prop :=
  ∃ pattern, failure = .nameExhausted pattern

/-! ## Work that fails for want of a name only -/

namespace Assigning

variable {α β : Type}

/-- The work fails only where no name is left, whatever was assigned before. -/
def OnlyExhausts (work : Assigning α) : Prop :=
  ∀ before, Tells before (fun _ _ => True) (fun failure _ => failure.IsExhausted) work

namespace OnlyExhausts

theorem pure (value : α) : OnlyExhausts (pure value : Assigning α) :=
  fun _ => trivial

theorem get : OnlyExhausts (get : Assigning Assignment) :=
  fun _ => trivial

theorem modify (change : Assignment → Assignment) :
    OnlyExhausts (modify change : Assigning PUnit) :=
  fun _ => trivial

theorem logged (logged : Logged α) : OnlyExhausts (liftM logged : Assigning α) :=
  fun _ => trivial

theorem except {result : Except Failure α} {value : α} (h : result = .ok value) :
    OnlyExhausts (liftM result : Assigning α) := by
  subst h
  exact fun _ => trivial

theorem bind {work : Assigning α} {next : α → Assigning β} (h : OnlyExhausts work)
    (hnext : ∀ value, OnlyExhausts (next value)) : OnlyExhausts (work >>= next) :=
  fun before => (h before).bind fun value between _ => hnext value between

theorem mapM {act : α → Assigning β} {xs : List α} (h : ∀ x ∈ xs, OnlyExhausts (act x)) :
    OnlyExhausts (xs.mapM act) := by
  induction xs with
  | nil => exact .pure []
  | cons x xs ih =>
      obtain ⟨hx, hxs⟩ := List.forall_mem_cons.1 h
      rw [List.mapM_cons]
      exact .bind hx fun _ => .bind (ih hxs) fun _ => .pure _

theorem takeName (request : NameRequest) : OnlyExhausts (takeName request.choose) := by
  intro before
  obtain ⟨answer, hanswer, houtcome⟩ := request.outcome_takeName_choose before
  rw [Tells, houtcome]
  cases hanswer with
  | preferred | candidate => trivial
  | exhausted => exact ⟨_, rfl⟩

end OnlyExhausts

/-! ## Providers -/

theorem onlyExhausts_newProvider (owner : ClassName) (kind : String) (medium : Medium) :
    OnlyExhausts (newProvider owner kind medium) := by
  unfold newProvider takeProviderName
  exact .bind (.bind .get fun _ => .takeName (.numbered _)) fun _ => .pure _

theorem onlyExhausts_ofPoint (module : ClassName) (point : ProvisionPoint) :
    OnlyExhausts (ofPoint module point) := by
  unfold ofPoint
  split
  · refine .bind .get fun before => ?_
    split
    · exact .pure _
    · exact .bind (onlyExhausts_newProvider _ _ _) fun _ => .bind (.modify _) fun _ => .pure _
  · exact onlyExhausts_newProvider _ _ _
  · exact onlyExhausts_newProvider _ _ _

theorem onlyExhausts_ofBinding {bound : Binding}
    (h : ∃ name, bound.implementation = .ofClass name) : OnlyExhausts (ofBinding bound) := by
  obtain ⟨name, hname⟩ := h
  -- This is the one place in planning where a type has to stand for a class.
  have howner : elementClass bound.implementation.type.erasure = .ok name := by
    rw [hname]
    rfl
  unfold ofBinding
  refine .bind .get fun before => ?_
  split
  · exact .pure _
  · refine .bind (.except howner) fun _ => .bind (onlyExhausts_newProvider _ _ _) fun _ => ?_
    exact .bind (.modify _) fun _ => .pure _

theorem onlyExhausts_ofFactory (id : Id .factory) (factory : Factory) :
    OnlyExhausts (ofFactory id factory) := by
  unfold ofFactory
  refine .bind .get fun before => ?_
  split
  · exact .pure _
  · exact .bind (onlyExhausts_newProvider _ _ _) fun _ => .bind (.modify _) fun _ => .pure _

theorem onlyExhausts_ofContract (id : Id .contract) (contract : Contract) :
    OnlyExhausts (ofContract id contract) := by
  unfold ofContract
  refine .bind .get fun before => ?_
  split
  · exact .pure _
  · exact .bind (onlyExhausts_newProvider _ _ _) fun _ => .bind (.modify _) fun _ => .pure _

theorem onlyExhausts_ofModule {graph : ObjectGraph} {module : Module}
    (h : ∀ bound ∈ module.bindings, ∃ name, bound.implementation = .ofClass name) :
    OnlyExhausts (ofModule graph module) := by
  unfold ofModule
  refine .bind .get fun before => ?_
  split
  · exact .pure _
  · refine .bind (.mapM fun point _ => onlyExhausts_ofPoint _ _) fun _ => ?_
    refine .bind (.mapM fun bound hbound => onlyExhausts_ofBinding (h bound hbound)) fun _ => ?_
    refine .bind (.mapM fun entry _ => onlyExhausts_ofFactory _ _) fun _ => ?_
    refine .bind (.mapM fun entry _ => onlyExhausts_ofContract _ _) fun _ => ?_
    exact .bind (.logged _) fun _ => .bind (.modify _) fun _ => .pure _

theorem onlyExhausts_ofImport (id : Id .contract) (contract : Contract) (lazy : Bool) :
    OnlyExhausts (ofImport id contract lazy) := by
  unfold ofImport
  refine .bind .get fun before => ?_
  split
  · exact .pure _
  · refine .bind (.mapM fun _ _ => onlyExhausts_newProvider _ _ _) fun _ => ?_
    exact .bind (.modify _) fun _ => .pure _

/-! ## The plan -/

theorem onlyExhausts_composeInvaders (path : ClassPath) (keys : List Key) :
    OnlyExhausts (composeInvaders path keys) := by
  unfold composeInvaders
  refine .bind .get fun before => .mapM fun package _ => ?_
  exact .bind (.takeName (.preferring _)) fun _ => .pure _

theorem onlyExhausts_composeRegistry (keys : List Key) : OnlyExhausts (composeRegistry keys) := by
  unfold composeRegistry
  exact .bind .get fun before => .bind (.takeName (.preferring _)) fun _ => .pure _

/-- Composing a plan fails only for want of a name where all bindings are those of classes. -/
theorem onlyExhausts_composePlan {path : ClassPath} {graph : ObjectGraph}
    (h : ∀ module ∈ graph.modules.items, ∀ bound ∈ module.bindings,
      ∃ name, bound.implementation = .ofClass name) : OnlyExhausts (composePlan path graph) := by
  rw [composePlan_eq]
  refine .bind ?_ fun entries => ?_
  · unfold ofRequests
    refine .bind (.mapM fun module hmodule => ?_) fun _ => ?_
    · have hitem := (ObjectGraph.mem_inputModules.1 hmodule).1
      exact .bind (onlyExhausts_ofModule (h module hitem)) fun _ => .pure _
    · refine .bind (.mapM fun entry _ => ?_) fun _ => .pure _
      exact .bind (onlyExhausts_ofImport _ _ _) fun _ => .pure _
  · generalize Plan.draft path graph entries = draft
    refine .bind (.bind (onlyExhausts_composeInvaders _ _) fun _ => ?_) fun helpers => ?_
    · exact .bind (onlyExhausts_composeRegistry _) fun _ => .pure _
    · exact .bind (.logged _) fun _ => .bind (.logged _) fun _ => .pure _

end Assigning

theorem ClassPath.exists_implementation_of_readGraph {path : ClassPath} {project : String}
    {graph : ObjectGraph} (hgraph : (path.readGraph project).result = .ok graph) {module : Module}
    (hmodule : module ∈ graph.modules.items) {bound : Binding} (hbound : bound ∈ module.bindings) :
    ∃ name, bound.implementation = .ofClass name :=
  exists_implementation ((mem_bindings_iff hgraph hmodule).1 hbound).1

/-! ## Emission without failures -/

def Backend.Infallible (backend : Backend) : Prop :=
  ∀ unit, ∃ content, backend unit = .ok content

structure Sink.Infallible {σ : Type} (sink : Sink σ) : Prop where
  write : ∀ state name content, (sink.write state name content).1 = .ok ()
  flush : ∀ state, (sink.flush state).1 = .ok ()

section

variable {σ : Type} {backend : Backend} {sink : Sink σ}

theorem Attempt.report?_ofUnit (hbackend : backend.Infallible) (hsink : sink.Infallible) (state : σ)
    {entry : ClassName × Except Failure GeneratedUnit} {built : GeneratedUnit}
    (hbuilt : entry.2 = .ok built) : (ofUnit backend sink state entry).report? = none := by
  obtain ⟨content, hcontent⟩ := hbackend built
  unfold ofUnit
  rw [hbuilt]
  dsimp only
  rw [hcontent]
  dsimp only
  rw [hsink.write]
  rfl

theorem faults_eq_filterMap_reports (events : List Event) :
    faults events = (reports events).filterMap Event.fault? := by
  rw [faults, reports, List.filterMap_filter]
  refine List.filterMap_congr fun event _ => ?_
  cases event <;> rfl

theorem emit_of_infallible (hbackend : backend.Infallible) (hsink : sink.Infallible) (state : σ)
    {units : List (ClassName × Except Failure GeneratedUnit)}
    (hunits : ∀ entry ∈ units, ∃ built, entry.2 = .ok built) :
    faults (emit backend sink state units).events = [] ∧
      (emit backend sink state units).value.1 = .ok () := by
  constructor
  · rw [faults_eq_filterMap_reports, reports_emit]
    -- Each attempt starts where the one before it left the sink, so no state may be troublesome.
    have hnone : (Attempt.all backend sink state units).filterMap Attempt.report? = [] := by
      refine List.filterMap_eq_nil_iff.2 fun attempt hattempt => ?_
      obtain ⟨index, hindex, rfl⟩ := List.mem_mapIdx.1 hattempt
      obtain ⟨built, hbuilt⟩ := hunits _ (List.getElem_mem hindex)
      exact Attempt.report?_ofUnit hbackend hsink _ hbuilt
    rw [hnone]
    rfl
  · rw [value_emit, hsink.flush]
    rfl

end

/-! ## The units of a plan -/

/-- All units of the plan can be built. -/
structure Plan.Buildable (graph : ObjectGraph) (plan : Plan) : Prop where
  providers : ∀ provider ∈ plan.providers, ∃ unit, plan.providerUnit graph provider = .ok unit
  factories : ∀ id ∈ plan.factories, ∃ factory unit,
    graph.factories.get? id = some factory ∧ plan.factoryUnit factory = .ok unit
  contracts : ∀ id ∈ plan.contracts, ∃ contract unit,
    graph.contracts.get? id = some contract ∧ plan.contractUnit contract = .ok unit
  units : ∀ entry ∈ plan.units graph, ∃ unit, entry.2 = .ok unit

theorem Plan.Complete.buildable {path : ClassPath} {graph : ObjectGraph} {plan : Plan}
    {assigned : Assignment} (h : plan.Complete path graph assigned) (hrange : plan.InRange graph) :
    plan.Buildable graph := by
  constructor
  case providers =>
    intro provider hprovider
    obtain ⟨unit, -, hunit, -⟩ := exists_providerUnit h hprovider
    exact ⟨.provider unit, hunit⟩
  case factories =>
    intro id hid
    obtain ⟨factory, hfactory⟩ := hrange.factories id hid
    obtain ⟨unit, hunit, -⟩ := exists_factoryUnit h hid hfactory
    exact ⟨factory, unit, hfactory, hunit⟩
  case contracts =>
    intro id hid
    obtain ⟨contract, hcontract⟩ := hrange.contracts id hid
    obtain ⟨unit, hunit, -⟩ := exists_contractUnit h hid hcontract
    exact ⟨contract, unit, hcontract, hunit⟩
  case units =>
    rintro ⟨name, unit⟩ hentry
    obtain ⟨built, hbuilt, -⟩ := units_built h hentry
    exact ⟨built, hbuilt⟩

/-! ## Runs -/

namespace Gallery

def providing (name : String) (type : Signature) (needs : List Signature) : MethodDecl where
  name := name
  isStatic := false
  typeParameters := []
  parameters := needs.map fun need => ⟨need, []⟩
  returns := type
  annotations := [.ofType Vocabulary.provide]

def types : List Signature :=
  [.erased (.method "()V"), .array (.erased (.method "()V")), .erased (.primitive .int),
    .erased (.array (.primitive .int)), .typeVariable "T", .upper (.typeVariable "T"),
    .lower (.erased (.array (.method "(I)V")))]

def component : ClassDecl :=
  { ClassDecl.ofClass ⟨"app/Gallery"⟩ with
    annotations := [.ofType Vocabulary.component]
    methods := providing "all" (.ofClass ⟨"app/Exhibition"⟩) types ::
      types.zipIdx.map fun (type, index) => providing ("type" ++ toString index) type [] }

def run : Compilation where
  path := ClassPath.addInput ∅ component
  compiled := []
  config := .default
  time := ""

end Gallery

namespace Compilation

/-- Whatever types the compiled classes mention, planning fails only for want of a name, all units
of a plan are built, and emitting them reports nothing unless the backend or the sink fails. -/
theorem types_never_fail {run : Compilation} {graph : ObjectGraph} {project : String}
    (hgraph : (run.path.readGraph project).result = .ok graph) :
    (∀ failure, (run.plan graph).value.1 = .error failure → failure.IsExhausted) ∧
      ∀ plan, (run.plan graph).value.1 = .ok plan → plan.Buildable graph ∧
        ∀ (σ : Type) (backend : Backend) (sink : Sink σ) (state : σ), backend.Infallible →
          sink.Infallible → faults (emit backend sink state (plan.units graph)).events = [] ∧
            (emit backend sink state (plan.units graph)).value.1 = .ok () := by
  constructor
  · intro failure hplan
    have hexhausts : Assigning.OnlyExhausts (Assigning.composePlan run.path graph) :=
      Assigning.onlyExhausts_composePlan fun module hmodule bound =>
        ClassPath.exists_implementation_of_readGraph hgraph hmodule
    have htells := hexhausts (.ofCompiled run.config.project run.compiled)
    have houtcome : (Assigning.composePlan run.path graph).outcome
        (.ofCompiled run.config.project run.compiled) =
          (.error failure, (run.plan graph).value.2) := Prod.ext hplan rfl
    rw [Assigning.Tells, houtcome] at htells
    exact htells
  · intro plan hplan
    obtain ⟨assigned, hcomplete⟩ := exists_complete hgraph hplan
    have hbuildable := hcomplete.buildable
      (Plan.inRange_of_ends hcomplete (ClassPath.grounded_readGraph hgraph) (ends_plan hplan))
    exact ⟨hbuildable, fun σ backend sink state hbackend hsink =>
      emit_of_infallible hbackend hsink state hbuildable.units⟩

set_option maxRecDepth 100000 in
theorem types_never_fail_gallery :
    ∃ graph plan, (Gallery.run.path.readGraph "main").result = .ok graph ∧
      (Gallery.run.plan graph).value.1 = .ok plan ∧ plan.providers.length = 8 ∧
      plan.registry.slots.size = 6 ∧ plan.Buildable graph ∧
      faults (emit Backend.json Shop.sink () (plan.units graph)).events = [] := by
  have hplanned : ((Gallery.run.path.readGraph "main").result >>= fun graph =>
      (Gallery.run.plan graph).value.1).map (fun plan =>
        (plan.providers.length, plan.registry.slots.size)) = .ok (8, 6) := by
    decide +kernel
  obtain ⟨plan, hplan, hcounts⟩ := exists_ok_of_map_eq_ok hplanned
  obtain ⟨graph, hgraph, hplan⟩ := bind_eq_ok.1 hplan
  rw [Prod.mk.injEq] at hcounts
  obtain ⟨hbuildable, hemits⟩ := (types_never_fail hgraph).2 plan hplan
  refine ⟨graph, plan, hgraph, hplan, hcounts.1, hcounts.2, hbuildable, ?_⟩
  exact (hemits Unit Backend.json Shop.sink () (fun unit => ⟨_, rfl⟩)
    ⟨fun _ _ _ => rfl, fun _ => rfl⟩).1

end Compilation

end InjectionCompiler
