import InjectionCompiler.Proofs.FaultCount
import InjectionCompiler.Proofs.Planning
import InjectionCompiler.Proofs.Delivery

/-!
# Runs over rearranged paths

The order in which classes are registered shows in ids and in the order of messages.  How a run
ends, how many faults or providers it counts and which providers it emits is the same in any order.
-/

namespace InjectionCompiler

variable {path other : ClassPath} {graph twin : ObjectGraph}

/-! ## The input of graphs that are alike -/

namespace ObjectGraph.Alike

theorem inputShowings_eq (h : path.Rearranges other) (halike : graph.Alike twin) :
    twin.inputShowings other = graph.inputShowings path := by
  have hshown : ∀ (path : ClassPath) (graph : ObjectGraph), graph.inputShowings path =
      ((graph.modules.items.map graph.showing).filter fun showing => path.isInput showing.name :
        List Showing) := by
    intro path graph
    rw [inputShowings, inputModules, List.filter_map]
    rfl
  rw [hshown, hshown, h.isInput_eq]
  exact Multiset.coe_eq_coe.2 (halike.showings.filter _).symm

theorem inputFactories_eq (h : path.Rearranges other) (halike : graph.Alike twin) :
    twin.inputFactories other = graph.inputFactories path := by
  rw [inputFactories, inputFactories, h.isInput_eq]
  exact Multiset.coe_eq_coe.2 (halike.factories.filter _).symm

end ObjectGraph.Alike

theorem ClassPath.Rearranges.plannable_iff (h : path.Rearranges other) {project : String}
    {compiled : List ClassName} {showings : Multiset Showing} {factories : Multiset Factory} :
    Plannable other project compiled showings factories ↔
      Plannable path project compiled showings factories := by
  have hhidden : other.isHidden = path.isHidden := by
    funext name
    rw [isHidden, isHidden, h.find?_eq]
  unfold Plannable Assigning.RoomForHelpers Hides
  rw [hhidden]

namespace Compilation

variable {run : Compilation}

def onPath (run : Compilation) (path : ClassPath) : Compilation :=
  { run with path := path }

/-! ## Preparation -/

theorem length_faults_prepare (h : run.prepare.result = .ok graph) :
    (faults run.prepare.events).length =
      (run.path.readGraph run.config.project).faultCount +
        (run.path.validate graph run.config.checkCycles).faults.length := by
  rw [(faults_prepare h).2, List.length_append]
  rfl

/-- Everything that is asked of a graph before there is a plan for it. -/
structure Read (run : Compilation) (graph : ObjectGraph) : Prop where
  prepared : run.prepare.result = .ok graph
  wellFormed : graph.WellFormed
  owned : ∀ provision ∈ (graph.requests run.path).flatMap (ProviderRequest.provisions graph),
    ∃ owner, provision.owner = .ok owner

theorem prepare_rearranged (h : run.path.Rearranges other) (hlayered : run.path.Layered)
    (hothers : other.Layered) (hconfig : run.config.validate = .ok ()) :
    ((∃ name, run.prepare.result = .error (.classNotFound name)) ∧
        ∃ name, (run.onPath other).prepare.result = .error (.classNotFound name)) ∨
      ∃ graph twin, run.Read graph ∧ (run.onPath other).Read twin ∧ graph.Alike twin ∧
        (faults (run.onPath other).prepare.events).length = (faults run.prepare.events).length := by
  have hread := run.path.settles_readExactly hlayered run.config.project
  have hreadOther := other.settles_readExactly hothers run.config.project
  rw [h.graphToll_exact hlayered hothers] at hreadOther
  have hresult := result_prepare hconfig
  have hresultOther : (run.onPath other).prepare.result =
      (other.readGraph run.config.project).result := result_prepare hconfig
  -- Both paths are read at one toll, so both lack a class or neither does.
  cases hgraph : (run.path.readGraph run.config.project).result with
  | error failure =>
      obtain ⟨hnot, name, rfl⟩ := hread.of_error hgraph trivial
      cases htwin : (other.readGraph run.config.project).result with
      | ok twin => exact absurd ((hreadOther.of_ok htwin).2 trivial) hnot
      | error failure =>
          obtain ⟨-, missing, rfl⟩ := hreadOther.of_error htwin trivial
          exact .inl ⟨⟨name, hresult.trans hgraph⟩, missing, hresultOther.trans htwin⟩
  | ok graph =>
      obtain ⟨⟨marked, book, configured, hexact⟩, hfine⟩ := hread.of_ok hgraph
      cases htwin : (other.readGraph run.config.project).result with
      | error failure => exact absurd (hfine trivial) (hreadOther.of_error htwin trivial).1
      | ok twin =>
          obtain ⟨⟨marked', book', configured', hexact'⟩, -⟩ := hreadOther.of_ok htwin
          have halike := hexact.alike h hexact'
          have hformed := ClassPath.wellFormed_readGraph hgraph
          have hformedTwin := ClassPath.wellFormed_readGraph htwin
          have hprepared := hresult.trans hgraph
          have hpreparedTwin := hresultOther.trans htwin
          refine .inr ⟨graph, twin, ⟨hprepared, hformed, hexact.exists_owner⟩,
            ⟨hpreparedTwin, hformedTwin, hexact'.exists_owner⟩, halike, ?_⟩
          have hvalidated := h.length_faults_validate halike hformed.contracts_named
            hformedTwin.contracts_named run.config.checkCycles
          rw [length_faults_prepare hprepared, length_faults_prepare hpreparedTwin, hvalidated]
          exact congrArg (· + _) (hexact.count_eq_of_rearranges h hexact')

/-! ## Planning -/

theorem plan_cases (hconfig : run.config.validate = .ok ()) (hread : run.Read graph) :
    (Plannable run.path run.config.project run.compiled (graph.inputShowings run.path)
        (graph.inputFactories run.path) ∧
      ∃ plan, (run.plan graph).value.1 = .ok plan ∧
        ∀ name, name ∈ plan.providers.map Provider.name ↔
          Provision.IsNeeded run.config.project run.compiled
            (Showing.needs (graph.inputShowings run.path)) name) ∨
    (¬ Plannable run.path run.config.project run.compiled (graph.inputShowings run.path)
        (graph.inputFactories run.path) ∧
      ∃ text, (run.plan graph).value.1 = .error (.nameExhausted text)) := by
  have htold := Assigning.tells_composePlan hread.wellFormed hread.owned
    (Config.separator_not_mem hconfig) run.compiled
  have hvalue : (run.plan graph).value = (Assigning.composePlan run.path graph).outcome
    (.ofCompiled run.config.project run.compiled) := rfl
  rw [hvalue]
  unfold Assigning.Tells at htold
  split at htold
  · next plan _ heq =>
      rw [heq]
      exact .inl ⟨htold.1, plan, rfl, htold.2⟩
  · next failure _ heq =>
      obtain ⟨hfull, text, rfl⟩ := htold
      rw [heq]
      exact .inr ⟨hfull, text, rfl⟩

theorem plan_rearranged (h : run.path.Rearranges other) (hconfig : run.config.validate = .ok ())
    (hgraph : run.Read graph) (htwin : (run.onPath other).Read twin) (halike : graph.Alike twin) :
    ((∃ text, (run.plan graph).value.1 = .error (.nameExhausted text)) ∧
        ∃ text, ((run.onPath other).plan twin).value.1 = .error (.nameExhausted text)) ∨
      ∃ plan like, (run.plan graph).value.1 = .ok plan ∧
        ((run.onPath other).plan twin).value.1 = .ok like ∧
        ∀ name, name ∈ like.providers.map Provider.name ↔
          name ∈ plan.providers.map Provider.name := by
  have hcases := plan_cases hconfig hgraph
  have hcasesTwin := @plan_cases _ (run.onPath other) hconfig htwin
  change (Plannable other run.config.project run.compiled (twin.inputShowings other)
      (twin.inputFactories other) ∧ _) ∨ (¬ Plannable other run.config.project run.compiled
      (twin.inputShowings other) (twin.inputFactories other) ∧ _) at hcasesTwin
  rw [halike.inputShowings_eq h, halike.inputFactories_eq h, h.plannable_iff] at hcasesTwin
  rcases hcases with ⟨hplannable, plan, hplan, hnames⟩ | ⟨hfull, hexhausted⟩
  · rcases hcasesTwin with ⟨-, like, hlike, hlikeNames⟩ | ⟨hfull, -⟩
    · refine .inr ⟨plan, like, hplan, hlike, fun name => ?_⟩
      rw [hnames, hlikeNames, ← halike.inputShowings_eq h]
      rfl
    · exact absurd hplannable hfull
  · rcases hcasesTwin with ⟨hplannable, -⟩ | ⟨-, hexhaustedTwin⟩
    · exact absurd hplannable hfull
    · exact .inl ⟨hexhausted, hexhaustedTwin⟩

/-! ## Emitted providers -/

section

variable {σ : Type} {backend : Backend} {sink : Sink σ} {state : σ} {plan : Plan}

/-- The run writes the unit of a provider under the name. -/
def EmitsProvider (run : Compilation) (reported : List String) (backend : Backend) (sink : Sink σ)
    (state : σ) (name : ClassName) : Prop :=
  ∃ graph plan unit content, run.prepare.result = .ok graph ∧
    (run.plan graph).value.1 = .ok plan ∧ (name, .ok (.provider unit)) ∈ plan.units graph ∧
    backend (.provider unit) = .ok content ∧
    .write name content ∈ run.requests reported backend sink state

theorem requests_of_clean (hread : run.Read graph) (hclean : faults run.prepare.events = [])
    (hplan : (run.plan graph).value.1 = .ok plan) :
    run.requests [] backend sink state = Request.ofUnits backend (plan.units graph) := by
  simp [requests_eq, plannedRequests, hread.prepared, hclean, emissionRequests, hplan]

theorem emitsProvider_iff (hread : run.Read graph) (hclean : faults run.prepare.events = [])
    (hplan : (run.plan graph).value.1 = .ok plan) (hbackend : ∀ unit, (backend unit).isOk = true)
    (name : ClassName) :
    run.EmitsProvider [] backend sink state name ↔ name ∈ plan.providers.map Provider.name := by
  constructor
  · rintro ⟨graph', plan', unit, content, hgraph', hplan', hunit, -, -⟩
    cases hgraph'.symm.trans hread.prepared
    cases hplan'.symm.trans hplan
    obtain ⟨⟨provider, hprovider, hbuilt⟩, rfl⟩ := Plan.mem_units_iff.1 hunit
    obtain ⟨built, -, heq, hname, -⟩ := Plan.name_of_providerUnit hbuilt
    cases heq
    exact List.mem_map.2 ⟨provider, hprovider, hname.symm⟩
  · intro hname
    obtain ⟨provider, hprovider, rfl⟩ := List.mem_map.1 hname
    obtain ⟨assigned, hcomplete⟩ :=
      exists_complete (readGraph_of_prepare hread.prepared).1 hplan
    obtain ⟨built, -, hbuilt, -⟩ := Plan.exists_providerUnit hcomplete hprovider
    have hunit : (provider.name, .ok (.provider built)) ∈ plan.units graph := by
      obtain ⟨_, -, heq, hname, -⟩ := Plan.name_of_providerUnit hbuilt
      cases heq
      exact Plan.mem_units_iff.2 ⟨⟨provider, hprovider, hbuilt⟩, hname⟩
    obtain ⟨content, hcontent⟩ := exists_ok_of_isOk (hbackend (.provider built))
    refine ⟨graph, plan, built, content, hread.prepared, hplan, hunit, hcontent, ?_⟩
    rw [requests_of_clean hread hclean hplan, Request.ofUnits]
    refine List.mem_append_left _ (List.mem_filterMap.2 ⟨_, hunit, ?_⟩)
    simp only [Request.ofUnit?, Bind.bind, Except.bind, hcontent]

/-! ## How runs end -/

theorem result_of_unread {failure : Failure} (h : run.prepare.result = .error failure) :
    (run.compile [] backend sink state).value.1 = .error failure := by
  rw [value_compile, h]

theorem result_of_faulty (hread : run.Read graph) (hfaulty : faults run.prepare.events ≠ []) :
    (run.compile [] backend sink state).value.1 =
      .ok (.skipped (faults run.prepare.events).length) := by
  rw [value_compile, hread.prepared]
  dsimp only
  rw [List.nil_append, if_neg hfaulty]

theorem value_of_clean (hread : run.Read graph) (hclean : faults run.prepare.events = []) :
    (run.compile [] backend sink state).value = (run.generate backend sink state graph).value := by
  rw [value_compile, hread.prepared]
  dsimp only
  rw [List.nil_append, if_pos hclean]

theorem result_of_unplanned (hread : run.Read graph) (hclean : faults run.prepare.events = [])
    {failure : Failure} (hplan : (run.plan graph).value.1 = .error failure) :
    (run.compile [] backend sink state).value.1 = .error failure := by
  rw [value_of_clean hread hclean, value_generate, hplan]

theorem result_of_planned (hread : run.Read graph) (hclean : faults run.prepare.events = [])
    (hplan : (run.plan graph).value.1 = .ok plan)
    (hflush : ∀ state, (sink.flush state).1 = .ok ()) :
    (run.compile [] backend sink state).value.1 = .ok (.generated plan.providers.length) := by
  rw [value_of_clean hread hclean, value_generate, hplan]
  dsimp only
  rw [value_emit, hflush]
  rfl

/-- Two runs end alike: both lack a class, both come to the same outcome and then emit providers of
the same names, or both run out of names. -/
structure EndAlike (run twin : Compilation) (backend : Backend) (sink : Sink σ) (state : σ) :
    Prop where
  missing : (∃ name, (run.compile [] backend sink state).value.1 = .error (.classNotFound name)) ↔
    ∃ name, (twin.compile [] backend sink state).value.1 = .error (.classNotFound name)
  outcome : ∀ outcome, (run.compile [] backend sink state).value.1 = .ok outcome ↔
    (twin.compile [] backend sink state).value.1 = .ok outcome
  failure : ∀ failure, (run.compile [] backend sink state).value.1 = .error failure →
    (∃ name, failure = .classNotFound name) ∨ ∃ text, failure = .nameExhausted text
  providers : ∀ count, (run.compile [] backend sink state).value.1 = .ok (.generated count) →
    ∀ name, run.EmitsProvider [] backend sink state name ↔
      twin.EmitsProvider [] backend sink state name

theorem endAlike_rearranged (h : run.path.Rearranges other) (hlayered : run.path.Layered)
    (hothers : other.Layered) (hconfig : run.config.validate = .ok ())
    (hbackend : ∀ unit, (backend unit).isOk = true)
    (hflush : ∀ state, (sink.flush state).1 = .ok ()) :
    run.EndAlike (run.onPath other) backend sink state := by
  rcases prepare_rearranged h hlayered hothers hconfig with
    ⟨⟨name, hmissing⟩, missing, hmissingTwin⟩ | ⟨graph, twin, hgraph, htwin, halike, hcount⟩
  case inl =>
    have hresult := @result_of_unread _ _ backend sink state _ hmissing
    have hresultTwin := @result_of_unread _ _ backend sink state _ hmissingTwin
    constructor <;> simp [hresult, hresultTwin]
  by_cases hclean : faults run.prepare.events = []
  case neg =>
    have hfaulty : faults (run.onPath other).prepare.events ≠ [] := by
      rw [← List.length_pos_iff_ne_nil, hcount]
      exact List.length_pos_iff_ne_nil.2 hclean
    have hresult := @result_of_faulty _ _ _ backend sink state hgraph hclean
    have hresultTwin := @result_of_faulty _ _ _ backend sink state htwin hfaulty
    rw [hcount] at hresultTwin
    constructor <;> simp [hresult, hresultTwin]
  -- From here on neither run has a fault, and the plans decide.
  have hcleanTwin : faults (run.onPath other).prepare.events = [] := by
    rw [← List.length_eq_zero_iff, hcount, hclean, List.length_nil]
  rcases plan_rearranged h hconfig hgraph htwin halike with
    ⟨⟨text, hfull⟩, other, hfullTwin⟩ | ⟨plan, like, hplan, hlike, hnames⟩
  · have hresult := @result_of_unplanned _ _ _ backend sink state hgraph hclean _ hfull
    have hresultTwin := @result_of_unplanned _ _ _ backend sink state htwin hcleanTwin _ hfullTwin
    constructor <;> simp [hresult, hresultTwin]
  · have hlength : like.providers.length = plan.providers.length := by
      rw [← List.length_map Provider.name, ← List.length_map Provider.name]
      exact ((List.perm_ext_iff_of_nodup (Plan.nodup_providerNames (ends_plan hlike))
        (Plan.nodup_providerNames (ends_plan hplan))).2 hnames).length_eq
    have hresult := @result_of_planned _ _ _ backend sink state _ hgraph hclean hplan hflush
    have hresultTwin := @result_of_planned _ _ _ backend sink state _ htwin hcleanTwin hlike hflush
    rw [hlength] at hresultTwin
    constructor
    case missing | outcome | failure => simp [hresult, hresultTwin]
    case providers =>
      intro count _ name
      rw [emitsProvider_iff hgraph hclean hplan hbackend,
        emitsProvider_iff htwin hcleanTwin hlike hbackend, hnames]

/-- In whatever order classes are registered, a run over them ends alike. -/
theorem order_independent {entries others : List ClassEntry}
    (hnames : (entries.map fun entry => entry.decl.name).Nodup) (hperm : entries.Perm others)
    (hlayered : (ClassPath.ofEntries entries).Layered) {config : Config}
    (hconfig : config.validate = .ok ()) (compiled : List ClassName) (time : String)
    (hbackend : ∀ unit, (backend unit).isOk = true)
    (hflush : ∀ state, (sink.flush state).1 = .ok ()) (state : σ) :
    EndAlike ⟨.ofEntries entries, compiled, config, time⟩
      ⟨.ofEntries others, compiled, config, time⟩ backend sink state := by
  have hrearranges := ClassPath.rearranges_of_perm hnames hperm
  exact @endAlike_rearranged _ ⟨.ofEntries entries, compiled, config, time⟩ σ backend sink state
    hrearranges hlayered (hrearranges.layered hlayered) hconfig hbackend hflush

end

end Compilation

/-! ## A run in two orders -/

theorem ClassPath.layered_of_forall (h : ∀ decl ∈ path.decls, decl.interfaces = []) :
    path.Layered := by
  refine layered_of_rank (fun _ => 0) fun decl hdecl parent hparent => ?_
  rw [h decl hdecl] at hparent
  cases hparent

namespace Studio

def entries : List ClassEntry :=
  [component, part, work, factory, contract].map fun decl => ⟨decl, true⟩

end Studio

set_option maxRecDepth 100000 in
theorem Compilation.order_independent_studio :
    Compilation.EndAlike ⟨.ofEntries Studio.entries, [], .default, ""⟩
      ⟨.ofEntries Studio.entries.reverse, [], .default, ""⟩ (fun _ => .ok "") Shop.sink () ∧
    (Compilation.compile ⟨.ofEntries Studio.entries.reverse, [], .default, ""⟩ []
      (fun _ => .ok "") Shop.sink ()).value.1 = .ok (.generated 4) := by
  refine ⟨order_independent (by decide) (List.reverse_perm _).symm ?_ rfl [] "" (fun _ => rfl)
    (fun _ => rfl) (), by decide +kernel⟩
  exact ClassPath.layered_of_forall (by decide +kernel)

end InjectionCompiler
