import InjectionCompiler.Proofs.Draft

/-!
# Plans of rearranged paths

Whether there are names for a plan, and which names its providers get, is told by what the modules
of the input show and by the factories of the input.  None of these depends on an order.
-/

namespace InjectionCompiler

open Provision (IsNeeded)

/-! ## Owners -/

theorem Provision.exists_owner {provision : Provision}
    (h : ∀ bound, provision = .binding bound → ∃ name, bound.implementation = .ofClass name) :
    ∃ owner, provision.owner = .ok owner := by
  cases provision with
  | binding bound =>
      obtain ⟨name, hname⟩ := h bound rfl
      exact ⟨name, by rw [owner, hname]; rfl⟩
  | constructor | method | field | factory | contract | getter => exact ⟨_, rfl⟩

theorem ObjectGraph.exists_module_of_binding {graph : ObjectGraph} {path : ClassPath}
    {bound : Binding}
    (h : .binding bound ∈ (graph.requests path).flatMap (ProviderRequest.provisions graph)) :
    ∃ module ∈ graph.inputModules path, bound ∈ module.bindings := by
  obtain ⟨request, hrequest, hprovision⟩ := List.mem_flatMap.1 h
  rcases List.mem_append.1 hrequest with hrequest | hrequest
  · obtain ⟨module, hmodule, rfl⟩ := List.mem_map.1 hrequest
    refine ⟨module, hmodule, ?_⟩
    rw [ProviderRequest.provisions_module, List.mem_append] at hprovision
    rcases hprovision with hpoint | hshared
    · obtain ⟨⟨point, index⟩, -, heq⟩ := List.mem_map.1 hpoint
      unfold ProvisionPoint.provision at heq
      cases horigin : point.origin <;> simp only [horigin] at heq <;> cases heq
    · simpa using hshared
  · obtain ⟨entry, -, rfl⟩ := List.mem_map.1 hrequest
    rw [ProviderRequest.provisions_imported] at hprovision
    obtain ⟨_, -, heq⟩ := List.mem_map.1 hprovision
    cases heq

namespace ClassPath

variable {path : ClassPath} {hlayered : path.Layered} {project : String}

theorem exists_implementation {bound : Binding} (h : bound ∈ path.declaredBindings) :
    ∃ name, bound.implementation = .ofClass name := by
  obtain ⟨decl, -, hbound⟩ := List.mem_flatMap.1 h
  unfold readClassBindings at hbound
  split at hbound
  · cases hbound
  · simp only [Logged.value_bind, Logged.value_pure, Logged.value_mapM] at hbound
    obtain ⟨_, hread, rfl⟩ := List.mem_filterMap.1 hbound
    obtain ⟨entry, -, hread⟩ := List.mem_map.1 hread
    unfold readBinding at hread
    split at hread <;> cases hread
    exact ⟨decl.name, rfl⟩

theorem mem_declaredBindings_of_showing {name : ClassName} {bound : Binding}
    (h : bound ∈ (path.showingUnder hlayered project name).bindings) :
    bound ∈ path.declaredBindings := by
  unfold showingUnder at h
  cases hdecl : path.find? name with
  | none =>
      rw [hdecl] at h
      cases Multiset.notMem_zero _ h
  | some decl =>
      rw [hdecl, Option.elim_some] at h
      unfold showingOf at h
      dsimp only at h
      split at h
      · exact (mem_bindingsOf.1 h).1
      · cases Multiset.notMem_zero _ h

theorem ReadExactly.exists_owner {marked book : ContractBook}
    {configured : List (ClassName × Id .contract)} {graph : ObjectGraph} {count : Nat}
    (h : path.ReadExactly hlayered project marked book configured graph count)
    (provision : Provision)
    (hprovision : provision ∈ (graph.requests path).flatMap (ProviderRequest.provisions graph)) :
    ∃ owner, provision.owner = .ok owner := by
  refine provision.exists_owner ?_
  rintro bound rfl
  obtain ⟨module, hmodule, hbound⟩ := graph.exists_module_of_binding hprovision
  have hitem := (ObjectGraph.mem_inputModules.1 hmodule).1
  have hshowing := h.showing_eq (Arena.named?_of_mem h.portrays.named hitem)
  have hshown : bound ∈ (graph.showing module).bindings := hbound
  rw [hshowing] at hshown
  exact exists_implementation (mem_declaredBindings_of_showing hshown)

end ClassPath

/-! ## Names for a plan -/

def Plannable (path : ClassPath) (project : String) (compiled : List ClassName)
    (showings : Multiset Showing) (factories : Multiset Factory) : Prop :=
  Provision.Affordable project compiled (Showing.needs showings) ∧
    Assigning.RoomForHelpers path project (KeyAmong showings factories) fun name =>
      ¬ IsNeeded project compiled (Showing.needs showings) name ∧ name ∉ compiled

namespace Plan

variable {path : ClassPath} {graph : ObjectGraph} {project : String} {compiled : List ClassName}
  {entries : List (ClassName × List Provider) × List (ClassName × List Provider)}
  {assigned : Assignment}

theorem nodup_entries (hgraph : graph.WellFormed)
    (h : Ends (Assigning.ofRequests path graph) (.ofCompiled project compiled) entries assigned) :
    (entries.1.map Prod.fst).Nodup ∧ (entries.2.map Prod.fst).Nodup := by
  simp only [Assigning.ofRequests, ends_bind, ends_pure] at h
  obtain ⟨moduleEntries, middle, hmodules, contractEntries, _, hcontracts, rfl, rfl⟩ := h
  obtain ⟨hmiddle, -, hserved⟩ := Assigning.moduleEntries_spec hgraph
    (Assignment.sound_ofCompiled graph project compiled) hmodules
  obtain ⟨-, -, himported⟩ := Assigning.contractEntries_spec hgraph hmiddle hcontracts
  have hmoduleNames := @Table.map_fst_of_forall₂ _ _ _ Module.name
    (fun module held => List.Forall₂ middle.Serves (module.media graph) held) _ _ hserved
  have hcontractNames := @Table.map_fst_of_forall₂ _ _ _
    (fun imported : Id .contract × Contract × Bool => imported.2.1.name) ServeGetters _ _ himported
  rw [hmoduleNames, hcontractNames]
  exact ⟨hgraph.nodup_inputModules, hgraph.nodup_inputImports⟩

theorem mem_names_draft (hgraph : graph.WellFormed)
    (h : Ends (Assigning.ofRequests path graph) (.ofCompiled project compiled) entries assigned)
    (name : ClassName) :
    name ∈ (draft path graph entries).providers.map Provider.name ↔
      name ∈ (entries.1 ++ entries.2).flatMap fun entry => entry.2.map Provider.name := by
  have hvalues : ∀ {entries : List (ClassName × List Provider)}, (entries.map Prod.fst).Nodup →
      (Table.ofList entries).values.flatten = entries.flatMap Prod.snd := by
    intro entries hnodup
    rw [Table.values, Table.entries_ofList hnodup, List.flatMap_def]
  obtain ⟨hmodules, hcontracts⟩ := nodup_entries hgraph h
  have hproviders : (draft path graph entries).providers =
      firsts Provider.name ((entries.1 ++ entries.2).flatMap Prod.snd) := by
    rw [List.flatMap_append, ← hvalues hmodules, ← hvalues hcontracts]
    rfl
  rw [hproviders, firsts, key_mem_map_firstsFrom, and_iff_left List.not_mem_nil, List.map_flatMap]

end Plan

namespace Assigning

variable {path : ClassPath} {graph : ObjectGraph} {project : String}

theorem tells_composePlan (hgraph : graph.WellFormed)
    (howners : ∀ provision ∈ (graph.requests path).flatMap (ProviderRequest.provisions graph),
      ∃ owner, provision.owner = .ok owner)
    (hproject : '$' ∉ project.toList) (compiled : List ClassName) :
    Tells (.ofCompiled project compiled)
      (fun plan _ =>
        Plannable path project compiled (graph.inputShowings path) (graph.inputFactories path) ∧
          ∀ name, name ∈ plan.providers.map Provider.name ↔
            IsNeeded project compiled (Showing.needs (graph.inputShowings path)) name)
      (fun failure _ =>
        ¬ Plannable path project compiled (graph.inputShowings path) (graph.inputFactories path) ∧
          ∃ text, failure = .nameExhausted text)
      (composePlan path graph) := by
  have hrequests := tells_ofRequests hgraph howners project compiled
  rw [ObjectGraph.needs_eq hgraph.contracts_named] at hrequests
  rw [composePlan_eq]
  refine hrequests.ends.bind_of_stops ?_ ?_
  · rintro failure after ⟨hfull, hfailure⟩
    exact ⟨fun hplannable => hfull hplannable.1, hfailure⟩
  · intro entries assigned hassigned
    have hends := hassigned.1
    have hafford := hassigned.2.1
    have hsame : assigned.project = project := hassigned.2.2.1
    have hcompiled : assigned.names.compiled = compiled := hassigned.2.2.2.1
    have hneeded : ∀ name, name ∈ assigned.names.generated ↔
        IsNeeded project compiled (Showing.needs (graph.inputShowings path)) name :=
      hassigned.2.2.2.2.1
    have hlisted : ∀ name, name ∈ assigned.names.generated ↔
        name ∈ (entries.1 ++ entries.2).flatMap fun entry => entry.2.map Provider.name :=
      hassigned.2.2.2.2.2
    have hfree : ∀ name, assigned.names.isFree name = true ↔
        ¬ IsNeeded project compiled (Showing.needs (graph.inputShowings path)) name ∧
          name ∉ compiled := fun name =>
      NameSupply.isFree_iff.trans (and_congr (not_congr (hneeded name)) (by rw [hcompiled]))
    have hkeys := Plan.mem_keys_draft hgraph hends
    have hnames := Plan.mem_names_draft hgraph hends
    -- What the draft is made of would only be unfolded from here on.
    generalize Plan.draft path graph entries = draft at hkeys hnames ⊢
    refine (tells_composeHelpers_iff path hkeys hsame hproject hfree).bind_of_stops ?_ ?_
    · rintro failure after ⟨hfull, hfailure⟩
      exact ⟨fun hplannable => hfull hplannable.2, hfailure⟩
    · rintro helpers after hroom
      refine .bind_logged (.bind_logged (.pure ⟨⟨hafford, hroom⟩, fun name => ?_⟩))
      rw [← hneeded, hlisted]
      exact hnames name

end Assigning

end InjectionCompiler
