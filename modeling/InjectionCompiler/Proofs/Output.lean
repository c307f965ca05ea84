import InjectionCompiler.Proofs.Closure
import InjectionCompiler.Proofs.Compilation
import InjectionCompiler.Proofs.Emission

/-!
# What a run writes

The names that a run writes to differ from each other.  They differ from those of compiled classes,
except that nothing keeps an implementation from being written over a class of the same name.
-/

namespace InjectionCompiler

/-! ## Names of requests -/

namespace Request

def names (requests : List Request) : List ClassName :=
  requests.filterMap name?

theorem names_ofUnits_sublist (backend : Backend)
    (units : List (ClassName × Except Failure GeneratedUnit)) :
    (names (ofUnits backend units)).Sublist (units.map Prod.fst) := by
  have hflush : names [.flush] = [] := rfl
  rw [names, ofUnits, List.filterMap_append, ← names, ← names, hflush, List.append_nil, names]
  induction units with
  | nil => exact .slnil
  | cons entry units ih =>
      rw [List.filterMap_cons, List.map_cons]
      cases hentry : ofUnit? backend entry with
      | none => exact ih.cons _
      | some request =>
          have hname : request.name? = some entry.1 := by
            unfold ofUnit? at hentry
            split at hentry <;> cases hentry
            rfl
          rw [List.filterMap_cons, hname]
          exact ih.cons_cons _

theorem ofUnits_ok (content : GeneratedUnit → String) (units : List GeneratedUnit) :
    ofUnits (fun unit => .ok (content unit)) (units.map fun unit => (unit.name, .ok unit)) =
      units.map (fun unit => .write unit.name (content unit)) ++ [.flush] := by
  rw [ofUnits, List.filterMap_map]
  congr 1
  exact List.filterMap_eq_map ▸ rfl

end Request

theorem Config.separator_not_mem {config : Config} (h : config.validate = .ok ()) :
    '$' ∉ config.project.toList := by
  unfold validate at h
  split at h
  · cases h
  · split at h
    · cases h
    · next hany =>
        intro hmem
        exact hany (List.any_eq_true.2 ⟨'$', hmem, by decide⟩)

/-! ## A run with implementations -/

namespace Studio

def hosted : Annotation :=
  .mk Vocabulary.providedBy [("value", .array [.type (.object ⟨"studio/Studio"⟩)])]

def component : ClassDecl :=
  { ClassDecl.ofClass ⟨"studio/Studio"⟩ with
    annotations := [.ofType Vocabulary.component]
    methods := [
      Shop.providing "part" (.ofClass ⟨"studio/Part"⟩) [],
      Shop.providing "parts" (.applied ⟨"java/util/List"⟩ [.ofClass ⟨"studio/Part"⟩]) []] }

def part : ClassDecl :=
  { ClassDecl.ofClass ⟨"studio/Part"⟩ with isPublic := false }

def work : ClassDecl :=
  { ClassDecl.ofClass ⟨"studio/Work"⟩ with
    methods := [{ MethodDecl.emptyConstructor with
      parameters := [⟨.ofClass ⟨"studio/Part"⟩, []⟩]
      annotations := [.ofType Vocabulary.factoryInject] }] }

def making (name : String) (type : ClassName) : MethodDecl where
  name := name
  isStatic := false
  typeParameters := []
  parameters := []
  returns := .ofClass type
  annotations := []

def factory : ClassDecl :=
  { ClassDecl.ofInterface ⟨"studio/WorkFactory"⟩ with
    annotations := [.ofType Vocabulary.factory, hosted]
    methods := [making "create" ⟨"studio/Work"⟩] }

def contract : ClassDecl :=
  { ClassDecl.ofInterface ⟨"studio/Guild"⟩ with
    annotations := [.ofType Vocabulary.contract, hosted]
    methods := [making "part" ⟨"studio/Part"⟩] }

def taken : List ClassName :=
  [⟨"studio/WorkFactory$Ferrous$Factory"⟩, ⟨"studio/Guild$Ferrous$Contract$main"⟩]

def byRegistry : KeyReference → Bool
  | .registry _ => true
  | .classLiteral _ _ => false

def byInvader : KeyReference → Bool
  | .classLiteral _ (some _) => true
  | .classLiteral _ none => false
  | .registry _ => false

theorem byRegistry_iff {reference : KeyReference} :
    byRegistry reference ↔ ∃ slot, reference = .registry slot := by
  cases reference <;> simp [byRegistry]

theorem byInvader_iff {reference : KeyReference} :
    byInvader reference ↔ ∃ name field, reference = .classLiteral name (some field) := by
  rcases reference with ⟨name, _ | field⟩ | slot <;> simp [byInvader]

/-- The content of a unit tells in which way it refers to keys. -/
def content (unit : GeneratedUnit) : String :=
  if unit.references.any byRegistry then "by registry"
  else if unit.references.any byInvader then "by invader"
  else "by class"

theorem exists_registry_of_content {unit : GeneratedUnit} (h : content unit = "by registry") :
    ∃ slot, .registry slot ∈ unit.references := by
  unfold content at h
  split at h
  · next hany =>
      obtain ⟨reference, hmem, hreference⟩ := List.any_eq_true.1 hany
      obtain ⟨slot, rfl⟩ := byRegistry_iff.1 hreference
      exact ⟨slot, hmem⟩
  · split at h <;> simp at h

theorem exists_invader_of_content {unit : GeneratedUnit} (h : content unit = "by invader") :
    ∃ name field, .classLiteral name (some field) ∈ unit.references := by
  unfold content at h
  split at h
  · simp at h
  · split at h
    · next hany =>
        obtain ⟨reference, hmem, hreference⟩ := List.any_eq_true.1 hany
        obtain ⟨name, field, rfl⟩ := byInvader_iff.1 hreference
        exact ⟨name, field, hmem⟩
    · simp at h

def run (compiled : List ClassName) : Compilation where
  path := ((((ClassPath.addInput ∅ component).addInput part).addInput work).addInput
    factory).addInput contract
  compiled := compiled
  config := .default
  time := ""

end Studio

namespace Compilation

variable {run : Compilation} {σ : Type} {reported : List String} {backend : Backend}
  {sink : Sink σ} {state : σ} {count : Nat} {content : GeneratedUnit → String}

/-! ## Requests of a run -/

theorem validate_of_prepare {graph : ObjectGraph} (h : run.prepare.result = .ok graph) :
    run.config.validate = .ok () := by
  unfold prepare at h
  split at h
  · cases h
  · next hvalid => exact hvalid

theorem requests_of_compile
    (h : (run.compile reported backend sink state).value.1 = .ok (.generated count)) :
    ∃ graph plan, run.prepare.result = .ok graph ∧ (run.plan graph).value.1 = .ok plan ∧
      run.requests reported backend sink state = Request.ofUnits backend (plan.units graph) := by
  obtain ⟨graph, hgraph, rfl, hfaults, hgenerate⟩ := generate_of_compile h
  obtain ⟨plan, hplan, -⟩ := plan_of_generate hgenerate
  refine ⟨graph, plan, hgraph, hplan, ?_⟩
  rw [requests_eq, plannedRequests, hgraph, hfaults]
  simp only [List.length_nil, Nat.add_zero, if_true, emissionRequests, hplan]

/-! ## Closed output -/

/-- A run that generates code, with a backend that takes every unit, asks its sink for units that
are closed, each under its own name. -/
theorem output_closed
    (h : (run.compile reported (fun unit => .ok (content unit)) sink state).value.1 =
      .ok (.generated count)) :
    ∃ graph plan units, run.prepare.result = .ok graph ∧ (run.plan graph).value.1 = .ok plan ∧
      run.requests reported (fun unit => .ok (content unit)) sink state =
        units.map (fun unit => .write unit.name (content unit)) ++ [.flush] ∧
      plan.Closed run.path graph units := by
  obtain ⟨graph, plan, hgraph, hplan, hrequests⟩ := requests_of_compile h
  obtain ⟨assigned, hcomplete⟩ := exists_complete (readGraph_of_prepare hgraph).1 hplan
  obtain ⟨units, hunits⟩ := Plan.exists_units hcomplete
  refine ⟨graph, plan, units, hgraph, hplan, ?_, ?_⟩
  · rw [hrequests, hunits, Request.ofUnits_ok]
  · exact Plan.closed_of_units hcomplete hunits (ends_plan hplan)

set_option maxRecDepth 100000 in
theorem output_closed_studio :
    ((Studio.run []).compile [] (fun unit => .ok (Studio.content unit)) Shop.sink ()).value.1 =
        .ok (.generated 4) ∧
      ∃ graph plan units, (Studio.run []).prepare.result = .ok graph ∧
        ((Studio.run []).plan graph).value.1 = .ok plan ∧
        (Studio.run []).requests [] (fun unit => .ok (Studio.content unit)) Shop.sink () =
          units.map (fun unit => .write unit.name (Studio.content unit)) ++ [.flush] ∧
        plan.Closed (Studio.run []).path graph units ∧
        (∃ unit ∈ units, ∃ slot, .registry slot ∈ unit.references) ∧
        ∃ unit ∈ units, ∃ name field, .classLiteral name (some field) ∈ unit.references := by
  have hgenerated : ((Studio.run []).compile [] (fun unit => .ok (Studio.content unit))
      Shop.sink ()).value.1 = .ok (.generated 4) := by
    decide +kernel
  have hwritten : [.write ⟨"studio/Studio$MethodProvider1$main"⟩ "by registry",
      .write ⟨"studio/Guild$Ferrous$Contract$main"⟩ "by invader"] ⊆
        (Studio.run []).requests [] (fun unit => .ok (Studio.content unit)) Shop.sink () := by
    decide +kernel
  obtain ⟨graph, plan, units, hgraph, hplan, hrequests, hclosed⟩ := output_closed hgenerated
  have hunit : ∀ name content, .write name content ∈
      (Studio.run []).requests [] (fun unit => .ok (Studio.content unit)) Shop.sink () →
        ∃ unit ∈ units, Studio.content unit = content := by
    intro name content h
    rw [hrequests] at h
    simp only [List.mem_append, List.mem_map, Request.write.injEq, List.mem_singleton, reduceCtorEq,
      or_false] at h
    obtain ⟨unit, hmem, -, hcontent⟩ := h
    exact ⟨unit, hmem, hcontent⟩
  obtain ⟨listed, hlisted, hregistry⟩ := hunit _ _ (hwritten List.mem_cons_self)
  obtain ⟨hidden, hhidden, hinvader⟩ :=
    hunit _ _ (hwritten (List.mem_cons_of_mem _ List.mem_cons_self))
  exact ⟨hgenerated, graph, plan, units, hgraph, hplan, hrequests, hclosed,
    ⟨listed, hlisted, Studio.exists_registry_of_content hregistry⟩,
    hidden, hhidden, Studio.exists_invader_of_content hinvader⟩

/-! ## Distinct names -/

/-- Whatever a run asks for, no name is written to twice. -/
theorem nodup_written (run : Compilation) (reported : List String) (backend : Backend)
    (sink : Sink σ) (state : σ) :
    (Request.names (run.requests reported backend sink state)).Nodup := by
  rcases requests_cases reported with hnone | ⟨graph, plan, hgraph, -, hplan, hrequests⟩
  · rw [hnone]
    exact List.nodup_nil
  · have hread := (readGraph_of_prepare hgraph).1
    rw [hrequests]
    refine List.Nodup.sublist (Request.names_ofUnits_sublist backend _) ?_
    exact Plan.nodup_units (ends_plan hplan) (ClassPath.grounded_readGraph hread)
      (ClassPath.wellFormed_readGraph hread) (Config.separator_not_mem (validate_of_prepare hgraph))

/-! ## Names of compiled classes -/

/-- A run that generates code, with a backend that takes every unit, writes to the name of a
compiled class exactly when an implementation bears that name. -/
theorem overwrites_iff_implements
    (h : (run.compile reported (fun unit => .ok (content unit)) sink state).value.1 =
      .ok (.generated count)) :
    ∃ graph, run.prepare.result = .ok graph ∧ ∀ name ∈ run.compiled,
      (name ∈ Request.names
          (run.requests reported (fun unit => .ok (content unit)) sink state) ↔
        graph.Implements run.path run.config.project name) := by
  obtain ⟨graph, plan, hgraph, hplan, hrequests⟩ := requests_of_compile h
  have hread := (readGraph_of_prepare hgraph).1
  obtain ⟨assigned, hcomplete⟩ := exists_complete hread hplan
  obtain ⟨units, hunits⟩ := Plan.exists_units hcomplete
  refine ⟨graph, hgraph, fun name hname => ?_⟩
  have hnames : Request.names
      (Request.ofUnits (fun unit => .ok (content unit)) (plan.units graph)) =
        (plan.units graph).map Prod.fst := by
    rw [hunits, Request.ofUnits_ok, Request.names, List.filterMap_append, List.filterMap_map]
    simp [Request.name?, Function.comp_def]
  rw [hrequests, hnames]
  exact Plan.mem_unitNames_iff (ends_plan hplan) (ClassPath.grounded_readGraph hread) hname

set_option maxRecDepth 100000 in
/-- Both implementations of the studio are written, although they are known to be compiled. -/
theorem implementations_overwritten_studio :
    ((Studio.run Studio.taken).compile [] (fun _ => .ok "") Shop.sink ()).value.1 =
        .ok (.generated 4) ∧
      (Request.names ((Studio.run Studio.taken).requests [] (fun _ => .ok "") Shop.sink ())).filter
        (fun name => name ∈ (Studio.run Studio.taken).compiled) = Studio.taken := by
  decide +kernel

set_option maxRecDepth 100000 in
theorem overwrites_iff_implements_studio :
    ((Studio.run Studio.taken).compile [] (fun _ => .ok "") Shop.sink ()).value.1 =
        .ok (.generated 4) ∧
      ∃ graph, (Studio.run Studio.taken).prepare.result = .ok graph ∧ ∀ name ∈ Studio.taken,
        (name ∈ Request.names
            ((Studio.run Studio.taken).requests [] (fun _ => .ok "") Shop.sink ()) ↔
          graph.Implements (Studio.run Studio.taken).path "main" name) := by
  have hgenerated : ((Studio.run Studio.taken).compile [] (fun _ => .ok "") Shop.sink ()).value.1 =
      .ok (.generated 4) := by
    decide +kernel
  exact ⟨hgenerated, overwrites_iff_implements hgenerated⟩

end Compilation

end InjectionCompiler
