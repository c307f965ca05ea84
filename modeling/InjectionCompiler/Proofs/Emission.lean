import InjectionCompiler.Compilation
import InjectionCompiler.Proofs.Journal

/-!
# What a sink is asked for

A sink may keep a list of what it is asked for, and a run with it goes on as before.  What is asked
for depends on the units and on the backend, and not on how the sink answers.
-/

namespace InjectionCompiler

/-! ## Requests -/

inductive Request where
  | write (name : ClassName) (content : String)
  | flush
  deriving DecidableEq, Repr

namespace Request

/-- The name under which an artifact is to be written. -/
def name? : Request → Option ClassName
  | .write name _ => some name
  | .flush => none

/-- The request for a unit, which has to be built and to be taken by the backend. -/
def ofUnit? (backend : Backend) (entry : ClassName × Except Failure GeneratedUnit) :
    Option Request :=
  match entry.2 >>= backend with
  | .ok content => some (.write entry.1 content)
  | .error _ => none

def ofUnits (backend : Backend) (units : List (ClassName × Except Failure GeneratedUnit)) :
    List Request :=
  units.filterMap (ofUnit? backend) ++ [.flush]

end Request

variable {σ α : Type}

/-- A result and a state, with the requests made so far. -/
def noting (requests : List Request) (done : α × σ) : α × σ × List Request :=
  (done.1, done.2, requests)

/-- The sink with a list of all that it was asked for. -/
def Sink.traced (sink : Sink σ) : Sink (σ × List Request) where
  write state name content :=
    noting (state.2 ++ [.write name content]) (sink.write state.1 name content)
  flush state := noting (state.2 ++ [.flush]) (sink.flush state.1)

/-! ## Emission with a trace -/

variable {backend : Backend} {sink : Sink σ} {state : σ} {log : List Request}

theorem attempt_traced (name : ClassName) (unit : Except Failure GeneratedUnit) :
    attempt backend sink.traced (state, log) name unit =
      noting (log ++ (Request.ofUnit? backend (name, unit)).toList)
        (attempt backend sink state name unit) := by
  unfold attempt Request.ofUnit?
  dsimp only
  cases unit >>= backend with
  | error failure => simp [noting]
  | ok content =>
      simp only [Sink.traced]
      rcases sink.write state name content with ⟨_ | _, next⟩ <;> rfl

theorem emitAll_traced (units : List (ClassName × Except Failure GeneratedUnit)) :
    emitAll backend sink.traced (state, log) units =
      noting (log ++ units.filterMap (Request.ofUnit? backend)) <$>
        emitAll backend sink state units := by
  induction units generalizing state log with
  | nil => simp [emitAll, noting]
  | cons entry units ih =>
      obtain ⟨name, unit⟩ := entry
      have hlog : log ++ ((name, unit) :: units).filterMap (Request.ofUnit? backend) =
          log ++ (Request.ofUnit? backend (name, unit)).toList ++
            units.filterMap (Request.ofUnit? backend) := by
        rw [List.filterMap_cons]
        cases Request.ofUnit? backend (name, unit) <;> simp
      rw [hlog, emitAll, emitAll, attempt_traced]
      rcases attempt backend sink state name unit with ⟨_ | _, next⟩ <;> simp [noting, ih]

theorem emit_traced (units : List (ClassName × Except Failure GeneratedUnit)) :
    emit backend sink.traced (state, log) units =
      noting (log ++ Request.ofUnits backend units) <$> emit backend sink state units := by
  rw [emit, emit, emitAll_traced, bind_map_left, map_bind, Request.ofUnits, ← List.append_assoc]
  congr 1
  funext done
  simp only [noting, Sink.traced]
  rcases sink.flush done.2 with ⟨_ | _, next⟩ <;> simp [noting]

/-! ## Runs with a trace -/

theorem Logged.bind_congr {α β : Type} {step : Logged α} {f g : α → Logged β}
    (h : f step.value = g step.value) : step >>= f = step >>= g := by
  refine Logged.ext ?_ ?_
  · rw [value_bind, value_bind, h]
  · rw [events_bind, events_bind, h]

namespace Compilation

variable {run : Compilation} {graph : ObjectGraph}

def emissionRequests (run : Compilation) (backend : Backend) (graph : ObjectGraph) : List Request :=
  match (run.plan graph).value.1 with
  | .error _ => []
  | .ok plan => Request.ofUnits backend (plan.units graph)

def plannedRequests (run : Compilation) (reported : List String) (backend : Backend) :
    List Request :=
  match run.prepare.result with
  | .error _ => []
  | .ok graph =>
      if reported.length + (faults run.prepare.events).length = 0 then
        run.emissionRequests backend graph
      else []

/-- Everything that a run asks its sink for, in order. -/
def requests (run : Compilation) (reported : List String) (backend : Backend) (sink : Sink σ)
    (state : σ) : List Request :=
  (run.compile reported backend sink.traced (state, [])).value.2.2

theorem generate_traced (graph : ObjectGraph) :
    run.generate backend sink.traced (state, log) graph =
      noting (log ++ run.emissionRequests backend graph) <$>
        run.generate backend sink state graph := by
  rw [generate, generate, map_bind, emissionRequests]
  refine Logged.bind_congr ?_
  cases (run.plan graph).value.1 with
  | error failure => simp [noting]
  | ok plan => simp [emit_traced, noting]

theorem compile_traced (reported : List String) :
    run.compile reported backend sink.traced (state, log) =
      noting (log ++ run.plannedRequests reported backend) <$>
        run.compile reported backend sink state := by
  unfold compile plannedRequests
  dsimp only
  rw [map_bind]
  refine Logged.bind_congr ?_
  rw [Work.result]
  cases (ExceptT.run run.prepare).value with
  | error failure => simp [noting]
  | ok graph =>
      dsimp only
      split
      · exact generate_traced graph
      · simp [noting]

/-- The answers of the sink have no influence on what it is asked for. -/
theorem requests_eq (reported : List String) :
    run.requests reported backend sink state = run.plannedRequests reported backend := by
  rw [requests, compile_traced]
  rfl

theorem requests_cases (reported : List String) :
    run.requests reported backend sink state = [] ∨
      ∃ graph plan, run.prepare.result = .ok graph ∧ faults run.prepare.events = [] ∧
        (run.plan graph).value.1 = .ok plan ∧
        run.requests reported backend sink state =
          Request.ofUnits backend (plan.units graph) := by
  rw [requests_eq, plannedRequests]
  split
  · exact .inl rfl
  · next graph hgraph =>
      split
      · next hcount =>
          rw [emissionRequests]
          split
          · exact .inl rfl
          · next plan hplan =>
              have hnone : (faults run.prepare.events).length = 0 := by omega
              exact .inr ⟨graph, plan, hgraph, List.length_eq_zero_iff.1 hnone, hplan, rfl⟩
      · exact .inl rfl

end Compilation

end InjectionCompiler
