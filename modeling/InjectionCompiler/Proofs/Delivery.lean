import InjectionCompiler.Proofs.Output

/-!
# What becomes of units

Units are emitted one after another.  What becomes of a unit depends on the unit, on the backend and
on the state that the writes before it left the sink in; whether these writes succeeded plays no
part.  The sink is flushed once, behind all writes, and only by a run that has found no fault.
-/

namespace InjectionCompiler

variable {σ : Type}

/-! ## Requests and states -/

namespace Sink

/-- What a sink answers to a request, and the state it is in then. -/
def answer (sink : Sink σ) (state : σ) : Request → Except String Unit × σ
  | .write name content => sink.write state name content
  | .flush => sink.flush state

/-- The state that requests leave behind, whatever they are answered. -/
def after (sink : Sink σ) (state : σ) (requests : List Request) : σ :=
  requests.foldl (fun state request => (sink.answer state request).2) state

@[simp] theorem after_nil (sink : Sink σ) (state : σ) : sink.after state [] = state := rfl

theorem after_append (sink : Sink σ) (state : σ) (requests others : List Request) :
    sink.after state (requests ++ others) = sink.after (sink.after state requests) others := by
  simp [after]

end Sink

/-! ## Attempts -/

/-- What an attempt to emit a unit asks of the sink, and how it fails when it does. -/
structure Attempt where
  name : ClassName
  request? : Option Request
  failure? : Option Failure
  deriving DecidableEq, Repr

namespace Attempt

/-- The attempt at a unit with the sink in a state.  It fails where the unit cannot be built, where
the backend refuses it and where the sink does; only the last asks anything of the sink. -/
def ofUnit (backend : Backend) (sink : Sink σ) (state : σ)
    (entry : ClassName × Except Failure GeneratedUnit) : Attempt :=
  match entry.2 with
  | .error failure => ⟨entry.1, none, some failure⟩
  | .ok unit =>
      match backend unit with
      | .error failure => ⟨entry.1, none, some failure⟩
      | .ok content =>
          match (sink.write state entry.1 content).1 with
          | .ok () => ⟨entry.1, some (.write entry.1 content), none⟩
          | .error reason => ⟨entry.1, some (.write entry.1 content), some (.io reason)⟩

/-- The attempts at units, each with the sink as the writes before it have left it. -/
def all (backend : Backend) (sink : Sink σ) (state : σ)
    (units : List (ClassName × Except Failure GeneratedUnit)) : List Attempt :=
  units.mapIdx fun index entry =>
    ofUnit backend sink
      (sink.after state ((units.take index).filterMap (Request.ofUnit? backend))) entry

def report? (attempt : Attempt) : Option Event :=
  attempt.failure?.map fun failure =>
    .error ("Failed to generate " ++ attempt.name.display) (some failure)

end Attempt

def reports (events : List Event) : List Event :=
  events.filter fun event => event.fault?.isSome

@[simp] theorem reports_nil : reports [] = [] := rfl

@[simp] theorem reports_append (before after : List Event) :
    reports (before ++ after) = reports before ++ reports after := by
  simp [reports]

section

variable {backend : Backend} {sink : Sink σ}

namespace Attempt

@[simp] theorem name_ofUnit (state : σ) (entry : ClassName × Except Failure GeneratedUnit) :
    (ofUnit backend sink state entry).name = entry.1 := by
  unfold ofUnit
  repeat' split
  all_goals rfl

@[simp] theorem request?_ofUnit (state : σ) (entry : ClassName × Except Failure GeneratedUnit) :
    (ofUnit backend sink state entry).request? = Request.ofUnit? backend entry := by
  obtain ⟨name, unit | unit⟩ := entry
  · rfl
  · simp only [ofUnit, Request.ofUnit?, Except.bind, bind]
    repeat' split
    all_goals simp_all

theorem all_cons (state : σ) (entry : ClassName × Except Failure GeneratedUnit)
    (units : List (ClassName × Except Failure GeneratedUnit)) :
    all backend sink state (entry :: units) = ofUnit backend sink state entry ::
      all backend sink (sink.after state (Request.ofUnit? backend entry).toList) units := by
  simp only [all, List.mapIdx_cons, List.take_zero, List.filterMap_nil, Sink.after_nil,
    List.take_succ_cons]
  congr 1
  refine congrArg (List.mapIdx · units) (funext fun index => funext fun other => ?_)
  rw [← Sink.after_append]
  cases hentry : Request.ofUnit? backend entry <;> simp [hentry]

theorem map_name_all (state : σ) (units : List (ClassName × Except Failure GeneratedUnit)) :
    (all backend sink state units).map name = units.map Prod.fst := by
  induction units generalizing state with
  | nil => rfl
  | cons entry units ih => rw [all_cons, List.map_cons, List.map_cons, ih, name_ofUnit]

theorem filterMap_request?_all (state : σ)
    (units : List (ClassName × Except Failure GeneratedUnit)) :
    (all backend sink state units).filterMap request? =
      units.filterMap (Request.ofUnit? backend) := by
  induction units generalizing state with
  | nil => rfl
  | cons entry units ih =>
      rw [all_cons, List.filterMap_cons, List.filterMap_cons, ih, request?_ofUnit]

end Attempt

theorem attempt_eq (state : σ) (name : ClassName) (unit : Except Failure GeneratedUnit) :
    attempt backend sink state name unit =
      (match (Attempt.ofUnit backend sink state (name, unit)).failure? with
        | none => .ok ()
        | some failure => .error failure,
      sink.after state (Request.ofUnit? backend (name, unit)).toList) := by
  cases unit with
  | error failure => rfl
  | ok unit =>
      cases hcontent : backend unit with
      | error failure =>
          simp [attempt, Attempt.ofUnit, Request.ofUnit?, Except.bind, bind, hcontent]
      | ok content =>
          rcases hwrite : sink.write state name content with ⟨reason | done, next⟩ <;>
            simp [attempt, Attempt.ofUnit, Request.ofUnit?, Except.bind, bind, hcontent, hwrite,
              Sink.after, Sink.answer]

theorem state_emitAll (state : σ) (units : List (ClassName × Except Failure GeneratedUnit)) :
    (emitAll backend sink state units).value.2 =
      sink.after state (units.filterMap (Request.ofUnit? backend)) := by
  induction units generalizing state with
  | nil => rfl
  | cons entry units ih =>
      obtain ⟨name, unit⟩ := entry
      have hrequests : ((name, unit) :: units).filterMap (Request.ofUnit? backend) =
          (Request.ofUnit? backend (name, unit)).toList ++
            units.filterMap (Request.ofUnit? backend) := by
        cases h : Request.ofUnit? backend (name, unit) <;> simp [h]
      rw [hrequests, Sink.after_append, ← ih, emitAll, attempt_eq]
      cases (Attempt.ofUnit backend sink state (name, unit)).failure? <;> rfl

theorem reports_emitAll (state : σ) (units : List (ClassName × Except Failure GeneratedUnit)) :
    reports (emitAll backend sink state units).events =
      (Attempt.all backend sink state units).filterMap Attempt.report? := by
  induction units generalizing state with
  | nil => rfl
  | cons entry units ih =>
      obtain ⟨name, unit⟩ := entry
      rw [Attempt.all_cons, List.filterMap_cons, ← ih, emitAll, attempt_eq, Attempt.report?,
        Attempt.name_ofUnit]
      cases (Attempt.ofUnit backend sink state (name, unit)).failure? with
      | none =>
          simp only [Logged.events_bind, Logged.events_pure, reports_append, List.append_nil]
          rfl
      | some failure =>
          simp only [Logged.events_bind, reports_append]
          rfl

theorem value_emit (state : σ) (units : List (ClassName × Except Failure GeneratedUnit)) :
    (emit backend sink state units).value =
      ((sink.flush (sink.after state (units.filterMap (Request.ofUnit? backend)))).1.mapError .io,
        sink.after state (Request.ofUnits backend units)) := by
  rw [emit, Logged.value_bind, Request.ofUnits, Sink.after_append, ← state_emitAll]
  generalize (emitAll backend sink state units).value = done
  simp only [Sink.after, Sink.answer, List.foldl_cons, List.foldl_nil]
  rcases sink.flush done.2 with ⟨reason | ⟨⟩, next⟩ <;> rfl

theorem reports_emit (state : σ) (units : List (ClassName × Except Failure GeneratedUnit)) :
    reports (emit backend sink state units).events =
      (Attempt.all backend sink state units).filterMap Attempt.report? := by
  rw [← reports_emitAll, emit, Logged.events_bind, reports_append]
  refine (congrArg (reports _ ++ ·) ?_).trans (List.append_nil _)
  generalize (emitAll backend sink state units).value = done
  dsimp only
  rcases sink.flush done.2 with ⟨reason | ⟨⟩, next⟩ <;> rfl

end

/-! ## Refusals -/

/-- A unit that was built and that a backend refuses by its name. -/
def IsRefused (reason? : ClassName → Option String)
    (entry : ClassName × Except Failure GeneratedUnit) : Prop :=
  ∃ unit, entry.2 = .ok unit ∧ (reason? unit.name).isSome

instance (reason? : ClassName → Option String) : DecidablePred (IsRefused reason?)
  | (_, .ok unit) => decidable_of_iff (reason? unit.name).isSome (by simp [IsRefused])
  | (_, .error _) => isFalse (by simp [IsRefused])

section

variable {backend : Backend} {sink : Sink σ} {reason? write? : ClassName → Option String}

theorem ofUnit?_refusing (entry : ClassName × Except Failure GeneratedUnit) :
    Request.ofUnit? (backend.refusing reason?) entry =
      if IsRefused reason? entry then none else Request.ofUnit? backend entry := by
  obtain ⟨name, failure | unit⟩ := entry
  · simp [IsRefused, Request.ofUnit?, Except.bind, bind]
  · cases hreason : reason? unit.name <;>
      simp [IsRefused, Request.ofUnit?, Backend.refusing, Except.bind, bind, hreason]

/-- A backend that refuses units leaves the sink as if they were not in the plan. -/
theorem value_emit_refusing (state : σ) (units : List (ClassName × Except Failure GeneratedUnit)) :
    (emit (backend.refusing reason?) sink state units).value =
      (emit backend sink state (units.filter fun entry => ¬ IsRefused reason? entry)).value := by
  have hrequests : units.filterMap (Request.ofUnit? (backend.refusing reason?)) =
      (units.filter fun entry => ¬ IsRefused reason? entry).filterMap
        (Request.ofUnit? backend) := by
    rw [List.filterMap_filter]
    refine List.filterMap_congr fun entry _ => ?_
    rw [ofUnit?_refusing]
    split <;> simp_all
  rw [value_emit, value_emit, Request.ofUnits, Request.ofUnits, hrequests]

theorem state_write_refusing (flush? : Option String) (state : σ) (name : ClassName)
    (content : String) :
    ((sink.refusing write? flush?).write state name content).2 =
      if (write? name).isNone then (sink.write state name content).2 else state := by
  cases hwrite : write? name <;> simp [Sink.refusing, hwrite]

theorem after_refusing (flush? : Option String) (state : σ)
    (units : List (ClassName × Except Failure GeneratedUnit)) :
    (sink.refusing write? flush?).after state (units.filterMap (Request.ofUnit? backend)) =
      sink.after state ((units.filter fun entry => (write? entry.1).isNone).filterMap
        (Request.ofUnit? backend)) := by
  induction units generalizing state with
  | nil => rfl
  | cons entry units ih =>
      cases hrequest : entry.2 >>= backend with
      | error failure =>
          -- No request is made, whether the sink would refuse it or not.
          have hnone : Request.ofUnit? backend entry = none := by
            simp only [Request.ofUnit?, hrequest]
          rw [List.filterMap_cons_none hnone, ih, List.filter_cons]
          split
          · rw [List.filterMap_cons_none hnone]
          · rfl
      | ok content =>
          have hsome : Request.ofUnit? backend entry = some (.write entry.1 content) := by
            simp only [Request.ofUnit?, hrequest]
          rw [List.filterMap_cons_some hsome, List.filter_cons]
          change (sink.refusing write? flush?).after
            ((sink.refusing write? flush?).write state entry.1 content).2 _ = _
          rw [state_write_refusing, ih]
          split
          · rw [List.filterMap_cons_some hsome]
            rfl
          · rfl

/-- A sink that refuses writes is left as if their units were not in the plan. -/
theorem value_emit_refusing_writes (state : σ)
    (units : List (ClassName × Except Failure GeneratedUnit)) :
    (emit backend (sink.refusing write? none) state units).value =
      (emit backend sink state (units.filter fun entry => (write? entry.1).isNone)).value := by
  rw [value_emit, value_emit, Request.ofUnits, Request.ofUnits, Sink.after_append,
    Sink.after_append, after_refusing]
  rfl

/-- A refused flush fails the emission and leaves the sink as the writes did. -/
theorem value_emit_refusing_flush (reason : String) (state : σ)
    (units : List (ClassName × Except Failure GeneratedUnit)) :
    (emit backend (sink.refusing write? (some reason)) state units).value =
      (.error (.io reason), sink.after state
        ((units.filter fun entry => (write? entry.1).isNone).filterMap
          (Request.ofUnit? backend))) := by
  rw [value_emit, Request.ofUnits, Sink.after_append, after_refusing]
  rfl

end

/-! ## Units that cannot be built -/

/-- The failure of a key whose type stands for no class. -/
def Failure.IsOfType (failure : Failure) : Prop :=
  ∃ text, failure = .invalidType ("Cannot extract an object type from " ++ text)

theorem bind_eq_error {α β : Type} {result : Except Failure α} {next : α → Except Failure β}
    {failure : Failure} (h : (result >>= next) = .error failure) :
    result = .error failure ∨ ∃ value, result = .ok value ∧ next value = .error failure := by
  cases result with
  | error other =>
      have hother : other = failure := Except.error.inj h
      exact .inl (congrArg _ hother)
  | ok value => exact .inr ⟨value, rfl, h⟩

theorem exists_mem_of_mapM_eq_error {α β : Type} {act : α → Except Failure β} {xs : List α}
    {failure : Failure} (h : xs.mapM act = .error failure) : ∃ x ∈ xs, act x = .error failure := by
  induction xs with
  | nil => cases h
  | cons x xs ih =>
      rw [List.mapM_cons] at h
      rcases bind_eq_error h with hx | ⟨y, -, h⟩
      · exact ⟨x, List.mem_cons_self .., hx⟩
      · rcases bind_eq_error h with hxs | ⟨ys, -, h⟩
        · obtain ⟨other, hother, hact⟩ := ih hxs
          exact ⟨other, List.mem_cons_of_mem _ hother, hact⟩
        · cases h

namespace Plan

variable {graph : ObjectGraph} {plan : Plan} {failure : Failure}

/-- No id of the plan dangles. -/
structure InRange (graph : ObjectGraph) (plan : Plan) : Prop where
  providers : ∀ provider ∈ plan.providers, provider.medium.InRange graph
  factories : ∀ id ∈ plan.factories, ∃ factory, graph.factories.get? id = some factory
  contracts : ∀ id ∈ plan.contracts, ∃ contract, graph.contracts.get? id = some contract

theorem isOfType_of_referTo {key : Key} (h : plan.referTo key = .error failure) :
    failure.IsOfType := by
  unfold referTo at h
  split at h
  · cases h
  · rcases bind_eq_error h with hclass | ⟨_, -, h⟩
    · unfold Assigning.elementClass at hclass
      split at hclass
      · cases hclass
      · next text _ =>
          cases hclass
          exact ⟨text, rfl⟩
    · cases h

theorem isOfType_of_referToDependency {dependency : Dependency}
    (h : plan.referToDependency dependency = .error failure) : failure.IsOfType := by
  rcases bind_eq_error h with hkey | ⟨_, -, h⟩
  · exact isOfType_of_referTo hkey
  · cases h

theorem isOfType_of_mediumSource {medium : Medium} (hrange : medium.InRange graph)
    (h : plan.mediumSource graph medium = .error failure) : failure.IsOfType := by
  cases medium with
  | provisionPoint point =>
      rcases bind_eq_error h with hinjectees | ⟨_, -, h⟩
      · obtain ⟨injectee, -, hinjectee⟩ := exists_mem_of_mapM_eq_error hinjectees
        exact isOfType_of_referToDependency hinjectee
      · cases h
  | binding bound =>
      rcases bind_eq_error h with hkey | ⟨_, -, h⟩
      · exact isOfType_of_referTo hkey
      · cases h
  | factory id =>
      obtain ⟨held, hheld⟩ := hrange
      simp only [mediumSource, factoryOf, hheld] at h
      cases h
  | contract id =>
      obtain ⟨held, hheld⟩ := hrange
      simp only [mediumSource, contractOf, hheld] at h
      cases h
  | getter id lazy served =>
      obtain ⟨held, hheld⟩ := hrange
      simp only [mediumSource, contractOf, hheld] at h
      change (plan.referTo held.key >>= _) = _ at h
      rcases bind_eq_error h with hkey | ⟨_, -, h⟩
      · exact isOfType_of_referTo hkey
      · cases h

theorem isOfType_of_providerUnit {provider : Provider} (hrange : provider.medium.InRange graph)
    (h : plan.providerUnit graph provider = .error failure) : failure.IsOfType := by
  rcases bind_eq_error h with hsource | ⟨_, -, h⟩
  · exact isOfType_of_mediumSource hrange hsource
  · obtain ⟨key, hkey⟩ := exists_key?_of_inRange hrange
    simp only [providerKey, hkey] at h
    change (plan.referTo key >>= _) = _ at h
    rcases bind_eq_error h with hreference | ⟨_, -, h⟩
    · exact isOfType_of_referTo hreference
    · cases h

theorem isOfType_of_factoryUnit {factory : Factory}
    (h : plan.factoryUnit factory = .error failure) : failure.IsOfType := by
  rcases bind_eq_error h with hmethods | ⟨_, -, h⟩
  · obtain ⟨method, -, hmethod⟩ := exists_mem_of_mapM_eq_error hmethods
    rcases bind_eq_error hmethod with harguments | ⟨_, -, hmethod⟩
    · obtain ⟨argument, -, hargument⟩ := exists_mem_of_mapM_eq_error harguments
      cases argument with
      | injected dependency =>
          rcases bind_eq_error hargument with hreference | ⟨_, -, hargument⟩
          · exact isOfType_of_referToDependency hreference
          · cases hargument
      | passed dependency index => cases hargument
    · cases hmethod
  · cases h

theorem isOfType_of_contractUnit {contract : Contract}
    (h : plan.contractUnit contract = .error failure) : failure.IsOfType := by
  rcases bind_eq_error h with hmethods | ⟨_, -, h⟩
  · obtain ⟨getter, -, hgetter⟩ := exists_mem_of_mapM_eq_error hmethods
    rcases bind_eq_error hgetter with hreference | ⟨_, -, hgetter⟩
    · exact isOfType_of_referToDependency hreference
    · cases hgetter
  · cases h

theorem isOfType_of_unit (hrange : plan.InRange graph) {name : ClassName}
    (h : (name, .error failure) ∈ plan.units graph) : failure.IsOfType := by
  simp only [units, List.mem_append, List.mem_map, List.mem_singleton, Prod.mk.injEq] at h
  rcases h with (((⟨provider, hprovider, -, hunit⟩ | ⟨factory, -, -, hunit⟩) |
    ⟨contract, -, -, hunit⟩) | ⟨invader, -, -, hunit⟩) | ⟨-, hunit⟩
  · exact isOfType_of_providerUnit (hrange.providers provider hprovider) hunit
  · exact isOfType_of_factoryUnit hunit
  · exact isOfType_of_contractUnit hunit
  · cases hunit
  · cases hunit

/-! ## Emission -/

theorem forall₂_filterMap_get? {entity : Entity} {α : Type} {arena : Arena entity α}
    {ids : List (Id entity)} (h : ∀ id ∈ ids, ∃ item, arena.get? id = some item) :
    List.Forall₂ (fun id item => arena.get? id = some item) ids (ids.filterMap arena.get?) := by
  induction ids with
  | nil => exact .nil
  | cons id ids ih =>
      obtain ⟨⟨item, hitem⟩, hrest⟩ := List.forall_mem_cons.1 h
      rw [List.filterMap_cons_some hitem]
      exact .cons hitem (ih hrest)

theorem inRange_of_ends {path : ClassPath} {project : String} {before assigned after : Assignment}
    (hplan : plan.Complete path graph assigned) (hgrounded : graph.Grounded project)
    (h : Ends (Assigning.composePlan path graph) before plan after) : plan.InRange graph := by
  obtain ⟨-, -, -, -, -, -, -, -, -, -, hcontracts, hfactories, -, -⟩ :=
    Assigning.exists_steps_of_composePlan h
  constructor
  case providers => exact fun provider => inRange_of_mem_providers hplan
  case factories =>
    intro id hid
    rw [hfactories] at hid
    obtain ⟨⟨id, factory⟩, hentry, rfl⟩ := List.mem_map.1 hid
    exact ⟨factory, Arena.get?_of_mem_entries (List.mem_filter.1 hentry).1⟩
  case contracts =>
    intro id hid
    rw [hcontracts, mem_firsts_id] at hid
    obtain ⟨module, hmodule, hid⟩ := List.mem_flatMap.1 hid
    exact hgrounded.hosted_contracts module (ObjectGraph.mem_inputModules.1 hmodule).1 id hid

theorem units_eq (h : plan.InRange graph) : ∃ factories contracts,
    List.Forall₂ (fun id factory => graph.factories.get? id = some factory)
        plan.factories factories ∧
      List.Forall₂ (fun id contract => graph.contracts.get? id = some contract)
        plan.contracts contracts ∧
      plan.units graph =
        plan.providers.map (fun provider => (provider.name, plan.providerUnit graph provider)) ++
        factories.map (fun factory => (factory.implementation, plan.factoryUnit factory)) ++
        contracts.map (fun contract => (contract.implementation, plan.contractUnit contract)) ++
        plan.invaders.map (fun invader => (invader.name, .ok (invaderUnit invader))) ++
        [(plan.registry.name, .ok (registryUnit plan.registry))] :=
  ⟨_, _, forall₂_filterMap_get? h.factories, forall₂_filterMap_get? h.contracts, rfl⟩

/-- Emission attempts every unit once, in order, each with the sink as the writes before it have
left it.  What fails is reported under its name and keeps nothing else back, and the flush behind
all writes decides how the emission ends. -/
theorem emission_best_effort (h : plan.InRange graph) (backend : Backend) (sink : Sink σ)
    (state : σ) :
    let attempts := Attempt.all backend sink state (plan.units graph)
    let writes := attempts.filterMap Attempt.request?
    let emission := emit backend sink state (plan.units graph)
    (∃ factories contracts,
      List.Forall₂ (fun id factory => graph.factories.get? id = some factory)
          plan.factories factories ∧
        List.Forall₂ (fun id contract => graph.contracts.get? id = some contract)
          plan.contracts contracts ∧
        plan.units graph =
          plan.providers.map (fun provider => (provider.name, plan.providerUnit graph provider)) ++
          factories.map (fun factory => (factory.implementation, plan.factoryUnit factory)) ++
          contracts.map (fun contract => (contract.implementation, plan.contractUnit contract)) ++
          plan.invaders.map (fun invader => (invader.name, .ok (invaderUnit invader))) ++
          [(plan.registry.name, .ok (registryUnit plan.registry))]) ∧
      (∀ name failure, (name, .error failure) ∈ plan.units graph → failure.IsOfType) ∧
      attempts.map Attempt.name = (plan.units graph).map Prod.fst ∧
      reports emission.events = attempts.filterMap Attempt.report? ∧
      (emit backend sink.traced (state, []) (plan.units graph)).value.2.2 = writes ++ [.flush] ∧
      emission.value = ((sink.flush (sink.after state writes)).1.mapError .io,
        sink.after state (writes ++ [.flush])) := by
  dsimp only
  rw [Attempt.filterMap_request?_all]
  refine ⟨units_eq h, fun name failure => isOfType_of_unit h, Attempt.map_name_all .., ?_, ?_, ?_⟩
  · exact reports_emit ..
  · rw [emit_traced]
    exact List.nil_append _
  · exact value_emit ..

end Plan

namespace Studio

/-- A backend that takes no factory. -/
def choosy : Backend
  | .factory unit => .error (.io ("No factory for " ++ unit.factory.display))
  | _ => .ok "content"

/-- A sink that counts what it is asked for, and refuses every other request. -/
def fickle : Sink Nat where
  write count _ _ := (if count % 2 = 0 then .ok () else .error "refused", count + 1)
  flush count := (if count % 2 = 0 then .ok () else .error "refused", count + 1)

end Studio

set_option maxRecDepth 100000 in
theorem Plan.emission_best_effort_studio :
    ∃ graph plan, ((Studio.run []).plan graph).value.1 = .ok plan ∧ plan.InRange graph ∧
      reports (emit Studio.choosy Studio.fickle 0 (plan.units graph)).events =
        (Attempt.all Studio.choosy Studio.fickle 0 (plan.units graph)).filterMap Attempt.report? ∧
      (emit Studio.choosy Studio.fickle 0 (plan.units graph)).value = (.error (.io "refused"), 8) ∧
      faults (emit Studio.choosy Studio.fickle 0 (plan.units graph)).events =
        ["Failed to generate studio.Studio$MethodProvider1$main",
          "Failed to generate studio.Guild$ContractProvider0$main",
          "Failed to generate studio.WorkFactory$Ferrous$Factory",
          "Failed to generate studio.Ferrous$PackageInvader$main"] := by
  have hran : ((Studio.run []).path.readGraph (Studio.run []).config.project).result.map
      (fun graph => ((Studio.run []).plan graph).value.1.map fun plan =>
        let emission := emit Studio.choosy Studio.fickle 0 (plan.units graph)
        (emission.value.1, emission.value.2, faults emission.events)) =
      .ok (.ok (.error (.io "refused"), 8,
        ["Failed to generate studio.Studio$MethodProvider1$main",
          "Failed to generate studio.Guild$ContractProvider0$main",
          "Failed to generate studio.WorkFactory$Ferrous$Factory",
          "Failed to generate studio.Ferrous$PackageInvader$main"])) := by
    decide +kernel
  obtain ⟨graph, hgraph, hplan⟩ := exists_ok_of_map_eq_ok hran
  obtain ⟨plan, hplan, hemission⟩ := exists_ok_of_map_eq_ok hplan
  obtain ⟨assigned, hcomplete⟩ := Compilation.exists_complete hgraph hplan
  have hrange := Plan.inRange_of_ends hcomplete (ClassPath.grounded_readGraph hgraph)
    (Compilation.ends_plan hplan)
  obtain ⟨-, -, -, hreports, -, -⟩ :=
    Plan.emission_best_effort hrange Studio.choosy Studio.fickle 0
  simp only [Prod.mk.injEq] at hemission
  obtain ⟨hresult, hstate, hfaults⟩ := hemission
  exact ⟨graph, plan, hplan, hrange, hreports, Prod.ext hresult hstate, hfaults⟩

/-! ## Runs -/

namespace Compilation

/-- A run that ends before anything is generated, with its result.  Faults count no matter whether
the run found them or they were reported before it. -/
inductive Blocked (run : Compilation) (reported : List String) : Except Failure Outcome → Prop
  | config {fault} (hconfig : run.config.validate = .error fault) :
      Blocked run reported (.error fault.failure)
  | analysis {failure} (hconfig : run.config.validate = .ok ())
      (hgraph : (run.path.readGraph run.config.project).result = .error failure) :
      Blocked run reported (.error failure)
  | faults {graph} (hconfig : run.config.validate = .ok ())
      (hgraph : (run.path.readGraph run.config.project).result = .ok graph)
      (hfaults : reported ++ faults run.prepare.events ≠ []) :
      Blocked run reported (.ok (.skipped (reported ++ faults run.prepare.events).length))
  | plan {graph failure} (hconfig : run.config.validate = .ok ())
      (hgraph : (run.path.readGraph run.config.project).result = .ok graph)
      (hfaults : reported ++ faults run.prepare.events = [])
      (hplan : (run.plan graph).value.1 = .error failure) :
      Blocked run reported (.error failure)

variable {run : Compilation} {reported : List String} {backend : Backend} {sink : Sink σ}
  {state : σ} {graph : ObjectGraph}

theorem result_prepare_of_invalid {fault : ConfigFault}
    (h : run.config.validate = .error fault) : run.prepare.result = .error fault.failure := by
  rw [prepare, h]
  rfl

theorem result_prepare (h : run.config.validate = .ok ()) :
    run.prepare.result = (run.path.readGraph run.config.project).result := by
  rw [prepare, h]
  rw [Work.result_bind, Work.result_logged]
  change (_ >>= _ : Work ObjectGraph).result = _
  rw [Work.result_bind]
  cases (run.path.readGraph run.config.project).result <;> rfl

theorem value_generate (graph : ObjectGraph) :
    (run.generate backend sink state graph).value =
      match (run.plan graph).value.1 with
      | .error failure => (.error failure, state)
      | .ok plan =>
          ((emit backend sink state (plan.units graph)).value.1.map fun () =>
            .generated plan.providers.length,
          (emit backend sink state (plan.units graph)).value.2) := by
  rw [generate, Logged.value_bind]
  cases (run.plan graph).value.1 <;> rfl

theorem value_compile :
    (run.compile reported backend sink state).value =
      match run.prepare.result with
      | .error failure => (.error failure, state)
      | .ok graph =>
          if reported ++ faults run.prepare.events = [] then
            (run.generate backend sink state graph).value
          else (.ok (.skipped (reported ++ faults run.prepare.events).length), state) := by
  rw [compile, Logged.value_bind, Work.result]
  cases (ExceptT.run run.prepare).value with
  | error failure => rfl
  | ok graph =>
      rw [← List.length_append]
      generalize reported ++ faults run.prepare.events = held
      cases held <;> rfl

theorem plannedRequests_eq_nil_of_blocked {result : Except Failure Outcome}
    (h : run.Blocked reported result) : run.plannedRequests reported backend = [] := by
  cases h with
  | config hconfig => rw [plannedRequests, result_prepare_of_invalid hconfig]
  | analysis hconfig hgraph => rw [plannedRequests, result_prepare hconfig, hgraph]
  | faults hconfig hgraph hfaults =>
      have hcount := mt List.length_eq_zero_iff.1 hfaults
      rw [List.length_append] at hcount
      simp only [plannedRequests, result_prepare hconfig, hgraph, if_neg hcount]
  | plan hconfig hgraph hfaults hplan =>
      simp only [plannedRequests, result_prepare hconfig, hgraph, emissionRequests, hplan, ite_self]

theorem value_compile_of_blocked {result : Except Failure Outcome}
    (h : run.Blocked reported result) :
    (run.compile reported backend sink state).value = (result, state) := by
  rw [value_compile]
  cases h with
  | config hconfig => rw [result_prepare_of_invalid hconfig]
  | analysis hconfig hgraph => rw [result_prepare hconfig, hgraph]
  | faults hconfig hgraph hfaults =>
      rw [result_prepare hconfig, hgraph]
      exact if_neg hfaults
  | plan hconfig hgraph hfaults hplan =>
      rw [result_prepare hconfig, hgraph]
      dsimp only
      rw [if_pos hfaults, value_generate, hplan]

theorem exists_plan_of_not_blocked (h : ¬ ∃ result, run.Blocked reported result) :
    ∃ graph plan, run.prepare.result = .ok graph ∧ reported ++ faults run.prepare.events = [] ∧
      (run.plan graph).value.1 = .ok plan := by
  cases hconfig : run.config.validate with
  | error fault => exact absurd ⟨_, .config hconfig⟩ h
  | ok done =>
      rw [result_prepare hconfig]
      cases hgraph : (run.path.readGraph run.config.project).result with
      | error failure => exact absurd ⟨_, .analysis hconfig hgraph⟩ h
      | ok graph =>
          by_cases hfaults : reported ++ faults run.prepare.events = []
          · cases hplan : (run.plan graph).value.1 with
            | error failure => exact absurd ⟨_, .plan hconfig hgraph hfaults hplan⟩ h
            | ok plan => exact ⟨graph, plan, rfl, hfaults, hplan⟩
          · exact absurd ⟨_, .faults hconfig hgraph hfaults⟩ h

theorem isWrite_of_mem_filterMap {units : List (ClassName × Except Failure GeneratedUnit)}
    {request : Request} (h : request ∈ units.filterMap (Request.ofUnit? backend)) :
    ∃ name content, request = .write name content := by
  obtain ⟨⟨name, unit⟩, -, hrequest⟩ := List.mem_filterMap.1 h
  unfold Request.ofUnit? at hrequest
  split at hrequest
  · next content _ => exact ⟨name, content, (Option.some.inj hrequest).symm⟩
  · cases hrequest

theorem faults_tellReport (plan : Option Plan) :
    faults (run.tellReport graph plan).events = [] := by
  unfold tellReport
  split <;> rfl

theorem faults_compile_of_skipped {count : Nat} (h : run.Blocked reported (.ok (.skipped count))) :
    (run.compile reported backend sink state).faults = faults run.prepare.events ∧
      count = (reported ++ faults run.prepare.events).length := by
  cases h with
  | faults hconfig hgraph hfaults =>
      refine ⟨?_, rfl⟩
      have hcount := mt List.length_eq_zero_iff.1 hfaults
      rw [List.length_append] at hcount
      have hprepared : (ExceptT.run run.prepare).value = .ok _ :=
        (result_prepare hconfig).trans hgraph
      rw [Logged.faults, compile, Logged.events_bind, faults_append, hprepared]
      dsimp only
      rw [if_neg hcount, Logged.events_bind, faults_append, faults_tellReport]
      exact List.append_nil _

/-- A blocked run asks nothing of the sink, and one that is skipped counts all that the reporter
holds.  Any other run flushes once, behind all its writes, and ends as the flush does. -/
theorem sink_untouched_unless_clean (run : Compilation) (reported : List String)
    (backend : Backend) (sink : Sink σ) (state : σ) :
    (∀ result, run.Blocked reported result →
      run.requests reported backend sink state = [] ∧
        (run.compile reported backend sink state).value = (result, state)) ∧
    (∀ count, run.Blocked reported (.ok (.skipped count)) →
      count = (reported ++ (run.compile reported backend sink state).faults).length) ∧
    ((¬ ∃ result, run.Blocked reported result) → ∃ writes count,
      (∀ request ∈ writes, ∃ name content, request = .write name content) ∧
        run.requests reported backend sink state = writes ++ [.flush] ∧
        (run.compile reported backend sink state).value =
          (((sink.flush (sink.after state writes)).1.mapError .io).map fun () => .generated count,
            sink.after state (writes ++ [.flush]))) := by
  refine ⟨fun result h => ?_, fun count h => ?_, fun h => ?_⟩
  · rw [requests_eq]
    exact ⟨plannedRequests_eq_nil_of_blocked h, value_compile_of_blocked h⟩
  · obtain ⟨hfaults, hcount⟩ := @faults_compile_of_skipped _ _ _ backend sink state _ h
    rw [hfaults, hcount]
  · obtain ⟨graph, plan, hgraph, hfaults, hplan⟩ := exists_plan_of_not_blocked h
    have hcount : reported.length + (faults run.prepare.events).length = 0 := by
      rw [← List.length_append, hfaults, List.length_nil]
    refine ⟨(plan.units graph).filterMap (Request.ofUnit? backend), plan.providers.length,
      fun _ => isWrite_of_mem_filterMap, ?_, ?_⟩
    · simp only [requests_eq, plannedRequests, hgraph, if_pos hcount, emissionRequests, hplan]
      rfl
    · rw [value_compile, hgraph]
      dsimp only
      rw [if_pos hfaults, value_generate, hplan]
      dsimp only
      rw [value_emit]
      rfl

set_option maxRecDepth 100000 in
/-- One fault that was reported before is enough to keep the shop from being generated. -/
theorem sink_untouched_unless_clean_shop :
    Shop.run.Blocked ["earlier"] (.ok (.skipped 1)) ∧
      Shop.run.requests ["earlier"] (fun _ => .ok "") Shop.sink () = [] ∧
      (Shop.run.compile ["earlier"] (fun _ => .ok "") Shop.sink ()).value =
        (.ok (.skipped 1), ()) := by
  have hread : (Shop.run.path.readGraph Shop.run.config.project).result.isOk = true := by
    decide +kernel
  have hfaults : faults Shop.run.prepare.events = [] := by
    decide +kernel
  obtain ⟨graph, hgraph⟩ := exists_ok_of_isOk hread
  have hsome : ["earlier"] ++ faults Shop.run.prepare.events ≠ [] := by
    simp only [List.cons_append, ne_eq, reduceCtorEq, not_false_eq_true]
  have hblocked : Shop.run.Blocked ["earlier"]
      (.ok (.skipped (["earlier"] ++ faults Shop.run.prepare.events).length)) :=
    .faults rfl hgraph hsome
  rw [hfaults] at hblocked
  exact ⟨hblocked, (sink_untouched_unless_clean Shop.run ["earlier"] (fun _ => .ok "") Shop.sink
    ()).1 _ hblocked⟩

end Compilation

end InjectionCompiler
