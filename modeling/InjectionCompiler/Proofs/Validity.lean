import InjectionCompiler.Proofs.Components
import InjectionCompiler.Proofs.Journal
import InjectionCompiler.Proofs.Sources
import InjectionCompiler.Proofs.Table
import InjectionCompiler.Validity

/-!
# What validation reports

The faults of a container are read off its wiring.  They name exactly the keys with several places,
the required keys without a place, and the cycles of the eager edges, each key once.
-/

namespace InjectionCompiler

/-! ## The reported faults -/

theorem ClassPath.faults_validate (path : ClassPath) (graph : ObjectGraph) (checkCycles : Bool) :
    (path.validate graph checkCycles).faults =
      path.structuralFaults graph ++
        graph.containers.flatMap (fun container =>
          container.faults (Wiring.ofRoot graph container.module) checkCycles) ++
        graph.unattachedFaults ++ graph.targetFaults graph.wirings := by
  have hreport : ∀ messages : List String, (messages.forM Logged.report).faults = messages := by
    intro messages
    rw [Logged.faults_forM]
    simp
  unfold validate
  simp only [Logged.faults_bind, Logged.faults_forM, Logged.faults_debug, Logged.faults_info,
    hreport, List.nil_append, List.append_nil, ObjectGraph.wirings,
    List.map_map, List.flatMap_map, Function.comp_def, List.append_assoc]

namespace Wiring

variable {graph : ObjectGraph} {root : Id .module}

/-! ## The places of a key -/

def placesOf (graph : ObjectGraph) (root : Id .module) (key : Key) : List Place :=
  ((supplies graph root).filter fun supply => supply.2.1 = key).map Prod.fst

theorem mem_placesOf {key : Key} {place : Place} :
    place ∈ placesOf graph root key ↔ ProvidedAt graph root place key := by
  simp only [placesOf, List.mem_map, List.mem_filter, decide_eq_true_eq]
  constructor
  · rintro ⟨⟨place, key, source⟩, ⟨hmem, rfl⟩, rfl⟩
    exact ⟨source, provides_of_mem_supplies hmem⟩
  · rintro ⟨source, h⟩
    obtain ⟨listed, hmem⟩ := exists_mem_supplies h
    exact ⟨_, ⟨hmem, rfl⟩, rfl⟩

theorem nodup_placesOf (graph : ObjectGraph) (root : Id .module) (key : Key) :
    (placesOf graph root key).Nodup :=
  (nodup_supplies graph root).sublist (List.filter_sublist.map _)

theorem mem_provided_iff {key : Key} :
    key ∈ (ofRoot graph root).provided.map Prod.fst ↔ ∃ place, ProvidedAt graph root place key := by
  rw [← map_snd_supplies, List.map_map]
  constructor
  · intro h
    obtain ⟨⟨place, key, source⟩, hmem, rfl⟩ := List.mem_map.1 h
    exact ⟨place, source, provides_of_mem_supplies hmem⟩
  · rintro ⟨place, source, h⟩
    obtain ⟨listed, hmem⟩ := exists_mem_supplies h
    exact List.mem_map.2 ⟨_, hmem, rfl⟩

/-! ## Duplicates -/

theorem forall₂_placesOf (graph : ObjectGraph) (root : Id .module) (key : Key) :
    List.Forall₂ (fun place source => Provides graph root place key source)
      (placesOf graph root key)
      (((ofRoot graph root).provided.filter fun entry => entry.1 = key).map Prod.snd) := by
  rw [← map_snd_supplies, List.filter_map, List.map_map, placesOf]
  rw [List.forall₂_map_left_iff, List.forall₂_map_right_iff]
  refine List.forall₂_same.2 fun supply hfiltered => ?_
  obtain ⟨place, other, source⟩ := supply
  obtain ⟨hmem, hkey⟩ := List.mem_filter.1 hfiltered
  rw [← show other = key by simpa using hkey]
  exact provides_of_mem_supplies hmem

theorem mem_duplicates {wiring : Wiring} {key : Key} {listed : List Source} :
    (key, listed) ∈ wiring.duplicates ↔
      listed = ((wiring.provided.filter fun entry => entry.1 = key).map Prod.snd) ∧
        1 < listed.length := by
  simp only [duplicates, sources, List.mem_filter, List.mem_map, Prod.exists, Prod.mk.injEq,
    Table.mem_entries_group, decide_eq_true_eq, gt_iff_lt]
  constructor
  · rintro ⟨⟨k, entries, ⟨-, rfl⟩, rfl, rfl⟩, hlength⟩
    exact ⟨rfl, hlength⟩
  · rintro ⟨rfl, hlength⟩
    refine ⟨⟨key, _, ⟨?_, rfl⟩, rfl, rfl⟩, hlength⟩
    -- A list with two members has a first one, and that is an entry under `key`.
    obtain ⟨entry, hentry⟩ := List.exists_mem_of_length_pos (by
      rw [List.length_map] at hlength
      exact Nat.lt_of_succ_lt hlength)
    obtain ⟨hmem, hkey⟩ := List.mem_filter.1 hentry
    exact ⟨entry.1, entry.2, hmem, by simpa using hkey⟩

theorem nodup_map_fst_duplicates (wiring : Wiring) : (wiring.duplicates.map Prod.fst).Nodup := by
  have hkeys : wiring.sources.map Prod.fst = (Table.group Prod.fst wiring.provided).keys := by
    simp [sources, Table.keys]
  refine List.Nodup.sublist (List.filter_sublist.map _) ?_
  rw [hkeys]
  exact (Table.group Prod.fst wiring.provided).distinct

private theorem one_lt_length_iff {α : Type} {xs : List α} (h : xs.Nodup) :
    1 < xs.length ↔ ∃ a ∈ xs, ∃ b ∈ xs, a ≠ b := by
  match xs with
  | [] => simp
  | [x] => simp
  | x :: y :: rest =>
      have hne : x ≠ y := fun heq => (List.nodup_cons.1 h).1 (heq ▸ List.mem_cons_self ..)
      exact iff_of_true (by simp) ⟨x, by simp, y, by simp, hne⟩

theorem mem_map_fst_duplicates {key : Key} :
    key ∈ (ofRoot graph root).duplicates.map Prod.fst ↔
      ∃ a b, a ≠ b ∧ ProvidedAt graph root a key ∧ ProvidedAt graph root b key := by
  have hlength := (forall₂_placesOf graph root key).length_eq
  constructor
  · intro h
    obtain ⟨⟨key, listed⟩, hmem, rfl⟩ := List.mem_map.1 h
    obtain ⟨rfl, hlong⟩ := mem_duplicates.1 hmem
    rw [← hlength] at hlong
    obtain ⟨a, ha, b, hb, hne⟩ := (one_lt_length_iff (nodup_placesOf graph root key)).1 hlong
    exact ⟨a, b, hne, mem_placesOf.1 ha, mem_placesOf.1 hb⟩
  · rintro ⟨a, b, hne, ha, hb⟩
    have hlong := (one_lt_length_iff (nodup_placesOf graph root key)).2
      ⟨a, mem_placesOf.2 ha, b, mem_placesOf.2 hb, hne⟩
    rw [hlength] at hlong
    exact List.mem_map.2 ⟨_, mem_duplicates.2 ⟨rfl, hlong⟩, rfl⟩

/-! ## Missing keys -/

theorem resolves_iff {key : Key} :
    (ofRoot graph root).resolves key = true ↔ ∃ place, ProvidedAt graph root place key.boxed := by
  rw [resolves, List.contains_iff_mem, mem_provided_iff]

theorem mem_unresolved {wiring : Wiring} {key : Key} {requirers : List Requirer} :
    (key, requirers) ∈ wiring.unresolved ↔
      key ∈ wiring.required.map Prod.fst ∧ wiring.resolves key = false ∧
        requirers = (wiring.required.filter fun entry => entry.1 = key).map Prod.snd := by
  simp only [unresolved, List.mem_filter, List.mem_map, Prod.exists, Prod.mk.injEq,
    Table.mem_entries_group, Bool.not_eq_true']
  constructor
  · rintro ⟨k, entries, ⟨⟨hkey, rfl⟩, hresolves⟩, rfl, rfl⟩
    exact ⟨hkey, hresolves, rfl⟩
  · rintro ⟨hkey, hresolves, rfl⟩
    exact ⟨key, _, ⟨⟨hkey, rfl⟩, hresolves⟩, rfl, rfl⟩

theorem nodup_map_fst_unresolved (wiring : Wiring) : (wiring.unresolved.map Prod.fst).Nodup := by
  have hkeys : wiring.unresolved.map Prod.fst =
      ((Table.group Prod.fst wiring.required).entries.filter fun entry =>
        !wiring.resolves entry.1).map Prod.fst := by
    simp [unresolved]
  rw [hkeys]
  refine List.Nodup.sublist (List.filter_sublist.map _) ?_
  exact (Table.group Prod.fst wiring.required).distinct

theorem Requires.boxed {key : Key} {requirer : Requirer} (h : Requires graph root key requirer) :
    key.boxed = key := by
  cases h <;> exact Key.boxed_boxed _

theorem mem_map_fst_unresolved {key : Key} :
    key ∈ (ofRoot graph root).unresolved.map Prod.fst ↔
      (∃ requirer, Requires graph root key requirer) ∧
        ¬ ∃ place, ProvidedAt graph root place key := by
  have hrequired : key ∈ (ofRoot graph root).required.map Prod.fst ↔
      ∃ requirer, Requires graph root key requirer := by
    simp [mem_required_iff]
  have hresolves (h : ∃ requirer, Requires graph root key requirer) :
      (ofRoot graph root).resolves key = false ↔ ¬ ∃ place, ProvidedAt graph root place key := by
    obtain ⟨requirer, h⟩ := h
    rw [← Bool.not_eq_true, resolves_iff, h.boxed]
  constructor
  · intro h
    obtain ⟨⟨key, requirers⟩, hmem, rfl⟩ := List.mem_map.1 h
    obtain ⟨hkey, hnone, -⟩ := mem_unresolved.1 hmem
    exact ⟨hrequired.1 hkey, (hresolves (hrequired.1 hkey)).1 hnone⟩
  · rintro ⟨hneeded, hnone⟩
    exact List.mem_map.2
      ⟨_, mem_unresolved.2 ⟨hrequired.2 hneeded, (hresolves hneeded).2 hnone, rfl⟩, rfl⟩

theorem requires_of_mem_unresolved {key : Key} {requirers : List Requirer}
    (h : (key, requirers) ∈ (ofRoot graph root).unresolved) {requirer : Requirer} :
    requirer ∈ requirers ↔ Requires graph root key requirer := by
  obtain ⟨-, -, rfl⟩ := mem_unresolved.1 h
  rw [← mem_required_iff]
  simp

/-! ## The faults of a container -/

/-- The keys with several sources and the required keys without one are listed each once, with
exactly what provides or requires them. -/
structure Exact (graph : ObjectGraph) (root : Id .module) (duplicates : List (Key × List Source))
    (missing : List (Key × List Requirer)) : Prop where
  duplicates_once : (duplicates.map Prod.fst).Nodup
  duplicate_iff : ∀ key, key ∈ duplicates.map Prod.fst ↔
    ∃ a b, a ≠ b ∧ ProvidedAt graph root a key ∧ ProvidedAt graph root b key
  duplicate_sources : ∀ key sources, (key, sources) ∈ duplicates →
    ∃ places : List Place, places.Nodup ∧
      (∀ place, place ∈ places ↔ ProvidedAt graph root place key) ∧
      List.Forall₂ (fun place source => Provides graph root place key source) places sources
  missing_once : (missing.map Prod.fst).Nodup
  missing_iff : ∀ key, key ∈ missing.map Prod.fst ↔
    (∃ requirer, Requires graph root key requirer) ∧ ¬ ∃ place, ProvidedAt graph root place key
  missing_requirers : ∀ key requirers, (key, requirers) ∈ missing →
    ∀ requirer, requirer ∈ requirers ↔ Requires graph root key requirer

/-- Validation reports for each container its duplicates, its missing keys and, on demand, its
cycles; the duplicates and the missing keys are exact. -/
theorem duplicate_and_missing_faults_exact (path : ClassPath) (graph : ObjectGraph)
    (checkCycles : Bool) :
    (path.validate graph checkCycles).faults =
        path.structuralFaults graph ++
          graph.containers.flatMap (fun container =>
            container.faults (ofRoot graph container.module) checkCycles) ++
          graph.unattachedFaults ++ graph.targetFaults graph.wirings ∧
      ∀ container : Container, ∃ duplicates missing,
        container.faults (ofRoot graph container.module) checkCycles =
          (duplicates.map fun (key, sources) => container.duplicateFault key sources) ++
            (missing.map fun (key, requirers) => container.missingFault key requirers) ++
            (if checkCycles then (ofRoot graph container.module).cycles.map container.cycleFault
            else []) ∧
        Exact graph container.module duplicates missing := by
  refine ⟨path.faults_validate graph checkCycles, fun container => ?_⟩
  refine ⟨(ofRoot graph container.module).duplicates, (ofRoot graph container.module).unresolved,
    rfl, ?_⟩
  constructor
  case duplicates_once => exact nodup_map_fst_duplicates _
  case duplicate_iff => exact fun key => mem_map_fst_duplicates
  case duplicate_sources =>
    intro key sources hmem
    obtain ⟨rfl, -⟩ := mem_duplicates.1 hmem
    exact ⟨placesOf graph container.module key, nodup_placesOf _ _ _, fun _ => mem_placesOf,
      forall₂_placesOf _ _ _⟩
  case missing_once => exact nodup_map_fst_unresolved _
  case missing_iff => exact fun key => mem_map_fst_unresolved
  case missing_requirers => exact fun key requirers hmem requirer => requires_of_mem_unresolved hmem

/-- The reported cycles are those found in the graph that numbers the keys edge by edge, in whatever
order its components are listed. -/
theorem faults_of_listsComponents {container : Container} {components : List (List Nat)}
    (h : (NumberedGraph.ofEdges (ofRoot graph container.module).edges).ListsComponents components) :
    container.faults (ofRoot graph container.module) true =
      container.faults (ofRoot graph container.module) false ++
        ((NumberedGraph.ofEdges (ofRoot graph container.module).edges).findCycles components).map
          container.cycleFault := by
  rw [h.findCycles_eq]
  simp [Container.faults, cycles]

/-- With the check on, the faults of a container end with its cycles.  There are none exactly when
the keys can be ranked so that every eager edge goes down. -/
theorem cycleFaults_eq_nil_iff_ranked (path : ClassPath) (graph : ObjectGraph) :
    (path.validate graph true).faults =
        path.structuralFaults graph ++
          graph.containers.flatMap (fun container =>
            container.faults (ofRoot graph container.module) false ++
              (ofRoot graph container.module).cycles.map container.cycleFault) ++
          graph.unattachedFaults ++ graph.targetFaults graph.wirings ∧
      ∀ container : Container,
        (ofRoot graph container.module).cycles.map container.cycleFault = [] ↔
          ∃ rank : Key → Nat, ∀ a b, EagerEdge graph container.module a b → rank b < rank a := by
  constructor
  · rw [path.faults_validate graph true]
    simp [Container.faults]
  · intro container
    have hranked := @Cycle.cycles_eq_nil_iff_rank _ (ofRoot graph container.module).edges _
    rw [List.map_eq_nil_iff, cycles, hranked]
    simp only [Cycle.Edge, mem_edges_iff]

end Wiring

end InjectionCompiler
