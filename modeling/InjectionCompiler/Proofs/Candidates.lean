import InjectionCompiler.ObjectGraph.Discovery
import InjectionCompiler.Proofs.Validity
import Mathlib.Data.List.MinMax

/-!
# The best candidates for a target

The search for the components that come closest to serving a target goes through them once.  What
it keeps is at each point the candidates seen so far that leave the fewest dependencies.
-/

namespace InjectionCompiler

open Wiring (ProvidedAt)

namespace ObjectGraph

/-! ## The fewest dependencies left over -/

def leastLeftOver (candidates : List (Container × List Dependency)) :
    List (Container × List Dependency) :=
  candidates.filter fun candidate =>
    candidates.all fun other => candidate.2.length ≤ other.2.length

variable {candidates seen : List (Container × List Dependency)}

theorem leastLeftOver_ne_nil (h : candidates ≠ []) : leastLeftOver candidates ≠ [] := by
  cases hleast : candidates.argmin fun candidate => candidate.2.length with
  | none => exact absurd (List.argmin_eq_none.1 hleast) h
  | some least =>
      refine List.ne_nil_of_mem (List.mem_filter.2 ⟨List.argmin_mem hleast, ?_⟩)
      refine List.all_eq_true.2 fun other hother => decide_eq_true ?_
      exact @List.le_of_mem_argmin _ _ _ (fun candidate => candidate.2.length) _ _ _ hother hleast

theorem leastLeftOver_eq_filter {count : Nat}
    (hbound : ∀ other ∈ candidates, count ≤ other.2.length)
    (hreached : ∃ other ∈ candidates, other.2.length = count) :
    leastLeftOver candidates = candidates.filter fun candidate => candidate.2.length = count := by
  obtain ⟨least, hleast, rfl⟩ := hreached
  refine List.filter_congr fun candidate hcandidate => ?_
  rw [Bool.eq_iff_iff, List.all_eq_true, decide_eq_true_eq]
  constructor
  · intro hall
    exact Nat.le_antisymm (by simpa using hall least hleast) (hbound candidate hcandidate)
  · intro heq other hother
    simpa [heq] using hbound other hother

/-! ## The search -/

theorem leastLeftOver_concat {candidate : Container × List Dependency} {count : Nat}
    (hseen : ∀ other ∈ seen, count ≤ other.2.length) (hcandidate : count ≤ candidate.2.length)
    (hreached : ∃ other ∈ seen ++ [candidate], other.2.length = count) :
    leastLeftOver (seen ++ [candidate]) = (seen.filter fun other => other.2.length = count) ++
      if candidate.2.length = count then [candidate] else [] := by
  rw [leastLeftOver_eq_filter (List.forall_mem_append.2
    ⟨hseen, List.forall_mem_singleton.2 hcandidate⟩) hreached, List.filter_append,
    List.filter_singleton]
  simp only [Bool.cond_eq_ite, decide_eq_true_eq]

theorem keepBest_leastLeftOver (seen : List (Container × List Dependency))
    (candidate : Container × List Dependency) :
    keepBest (leastLeftOver seen) candidate = leastLeftOver (seen ++ [candidate]) := by
  -- The loop invariant: one more candidate keeps the best of all that were seen.
  cases hbest : leastLeftOver seen with
  | nil =>
      have hseen : seen = [] := by
        by_contra hne
        exact leastLeftOver_ne_nil hne hbest
      subst hseen
      simp [keepBest, leastLeftOver]
  | cons first rest =>
      obtain ⟨hfirst, hleast⟩ := List.mem_filter.1
        (show first ∈ leastLeftOver seen from hbest ▸ List.mem_cons_self ..)
      have hbound : ∀ other ∈ seen, first.2.length ≤ other.2.length := by
        simpa using hleast
      have hseen := leastLeftOver_eq_filter hbound ⟨first, hfirst, rfl⟩
      have hreached : ∃ other ∈ seen ++ [candidate], other.2.length = first.2.length :=
        ⟨first, List.mem_append_left _ hfirst, rfl⟩
      rw [keepBest, ← hbest]
      -- Whichever of the best is looked at, all of them leave as much over as the first one.
      split_ifs with hworse hbetter
      · rw [leastLeftOver_concat hbound hworse.le hreached, if_neg (by omega), List.append_nil,
          hseen]
      · have hfewer : ∀ other ∈ seen, candidate.2.length < other.2.length :=
          fun other hother => hbetter.trans_le (hbound other hother)
        rw [leastLeftOver_concat (fun other hother => (hfewer other hother).le) le_rfl
          ⟨candidate, by simp, rfl⟩, if_pos rfl, List.filter_eq_nil_iff.2, List.nil_append]
        intro other hother
        have hmore := hfewer other hother
        simp only [decide_eq_true_eq]
        omega
      · rw [leastLeftOver_concat hbound (by omega) hreached, if_pos (by omega), hseen]

theorem searchCandidates_leastLeftOver (target : InjectionTarget)
    (seen : List (Container × List Dependency)) (components : List (Container × Wiring)) :
    searchCandidates target (leastLeftOver seen) components =
      if components.any fun entry => (leftOver target entry.2).isEmpty then []
      else leastLeftOver (seen ++ components.map fun entry =>
        (entry.1, leftOver target entry.2)) := by
  induction components generalizing seen with
  | nil => simp [searchCandidates]
  | cons entry components ih =>
      rw [searchCandidates, List.any_cons, List.map_cons]
      by_cases hserves : (leftOver target entry.2).isEmpty = true
      · simp [hserves]
      · simp only [hserves, Bool.false_or, Bool.false_eq_true, if_false]
        rw [keepBest_leastLeftOver, ih, List.append_assoc, List.singleton_append]

theorem bestCandidates_eq (components : List (Container × Wiring)) (target : InjectionTarget) :
    bestCandidates components target =
      if components.any fun entry => (leftOver target entry.2).isEmpty then []
      else leastLeftOver (components.map fun entry => (entry.1, leftOver target entry.2)) :=
  searchCandidates_leastLeftOver target [] components

theorem bestCandidates_eq_nil_iff {components : List (Container × Wiring)}
    {target : InjectionTarget} :
    bestCandidates components target = [] ↔ components = [] ∨
      ∃ entry ∈ components, ∀ dependency ∈ target.dependencies,
        entry.2.resolves dependency.key = true := by
  have hserved : (components.any fun entry => (leftOver target entry.2).isEmpty) = true ↔
      ∃ entry ∈ components, ∀ dependency ∈ target.dependencies,
        entry.2.resolves dependency.key = true := by
    simp [leftOver, List.filter_eq_nil_iff]
  rw [bestCandidates_eq]
  split_ifs with hany
  · exact iff_of_true rfl (.inr (hserved.1 hany))
  · rw [or_iff_left (mt hserved.2 hany), ← not_iff_not]
    constructor
    · rintro hsome rfl
      exact hsome rfl
    · exact fun hsome => leastLeftOver_ne_nil (mt List.map_eq_nil_iff.1 hsome)

/-! ## The report on a target -/

/-- What the container leaves open of a target, in the order of the target. -/
def leaves (graph : ObjectGraph) (target : InjectionTarget) (container : Container) :
    List Dependency :=
  leftOver target (Wiring.ofRoot graph container.module)

theorem mem_leaves {graph : ObjectGraph} {target : InjectionTarget} {container : Container}
    {dependency : Dependency} :
    dependency ∈ graph.leaves target container ↔ dependency ∈ target.dependencies ∧
      ¬ ∃ place, ProvidedAt graph container.module place dependency.key.boxed := by
  rw [leaves, leftOver, List.mem_filter, Bool.not_eq_true', ← Bool.not_eq_true,
    Wiring.resolves_iff]

/-- No container that could serve the target does, and there is one. -/
def Lacks (graph : ObjectGraph) (components : List Container) (target : InjectionTarget) : Prop :=
  graph.providable? target.name = none ∧ target.dependencies ≠ [] ∧ components ≠ [] ∧
    ∀ container ∈ components, graph.leaves target container ≠ []

instance (graph : ObjectGraph) (components : List Container) (target : InjectionTarget) :
    Decidable (graph.Lacks components target) :=
  inferInstanceAs (Decidable (_ ∧ _))

/-- Of these containers, those that leave the least of a target open. -/
def closest (graph : ObjectGraph) (components : List Container) (target : InjectionTarget) :
    List Container :=
  components.filter fun container => components.all fun other =>
    (graph.leaves target container).length ≤ (graph.leaves target other).length

def lackFaults (graph : ObjectGraph) (components : List Container) : List String :=
  (graph.injectable.filter fun target => graph.Lacks components target).map fun target =>
    targetFault target ((graph.closest components target).map fun container =>
      (container, graph.leaves target container))

def namedAsComponent (graph : ObjectGraph) : List Container :=
  graph.containers.filter fun container =>
    graph.components.any fun component => component.name = container.name

def ofComponents (graph : ObjectGraph) : List Container :=
  graph.containers.filter fun container => container.kind = .component

variable {graph : ObjectGraph}

theorem bestCandidates_map_ofRoot (components : List Container) (target : InjectionTarget) :
    bestCandidates (components.map fun container =>
        (container, Wiring.ofRoot graph container.module)) target =
      if ∀ container ∈ components, graph.leaves target container ≠ [] then
        (graph.closest components target).map fun container =>
          (container, graph.leaves target container)
      else [] := by
  have hnone : (components.any fun container => (graph.leaves target container).isEmpty) = true ↔
      ¬ ∀ container ∈ components, graph.leaves target container ≠ [] := by
    simp
  rw [bestCandidates_eq, List.any_map, List.map_map, leastLeftOver, List.filter_map]
  change (if (components.any fun container => (graph.leaves target container).isEmpty) = true
    then _ else _) = _
  simp only [hnone, ite_not, Function.comp_def, List.all_map]
  rfl

theorem closest_ne_nil {components : List Container} (h : components ≠ [])
    (target : InjectionTarget) : graph.closest components target ≠ [] := by
  have hleast := @leastLeftOver_ne_nil
    (components.map fun container => (container, graph.leaves target container))
    (mt List.map_eq_nil_iff.1 h)
  rw [leastLeftOver, List.filter_map] at hleast
  simp only [Function.comp_def, List.all_map] at hleast
  exact fun hnil => hleast (List.map_eq_nil_iff.2 hnil)

theorem bestCandidates_eq_nil_of_not_lacks {components : List Container} {target : InjectionTarget}
    (hlacks : ¬ graph.Lacks components target) (hnone : graph.providable? target.name = none) :
    bestCandidates (components.map fun container =>
      (container, Wiring.ofRoot graph container.module)) target = [] := by
  rw [bestCandidates_map_ofRoot]
  split_ifs with hall
  · have hempty : components = [] := by
      by_contra hne
      obtain ⟨container, hcontainer⟩ := List.exists_mem_of_ne_nil _ hne
      refine hlacks ⟨hnone, fun hdependencies => ?_, hne, hall⟩
      exact hall container hcontainer (by simp [leaves, leftOver, hdependencies])
    rw [hempty]
    rfl
  · rfl

theorem targetFaults_wirings (graph : ObjectGraph) :
    graph.targetFaults graph.wirings = graph.lackFaults graph.namedAsComponent := by
  have hcomponents : (graph.wirings.filter fun entry =>
      graph.components.any fun component => component.name = entry.1.name) =
        graph.namedAsComponent.map fun container =>
          (container, Wiring.ofRoot graph container.module) := by
    rw [wirings, List.filter_map]
    rfl
  have hspec : graph.lackFaults graph.namedAsComponent = graph.injectable.filterMap fun target =>
      if graph.Lacks graph.namedAsComponent target then
        some (targetFault target ((graph.closest graph.namedAsComponent target).map fun container =>
          (container, graph.leaves target container)))
      else none := by
    rw [lackFaults, ← List.filterMap_eq_map, List.filterMap_filter]
    simp
  rw [targetFaults, hcomponents, hspec, List.filterMap_filter]
  refine List.filterMap_congr fun target _ => ?_
  by_cases hlacks : graph.Lacks graph.namedAsComponent target
  · obtain ⟨hnone, -, hsome, hall⟩ := id hlacks
    rw [if_pos hlacks, hnone, bestCandidates_map_ofRoot, if_pos hall]
    cases hbest : graph.closest graph.namedAsComponent target with
    | nil => exact absurd hbest (closest_ne_nil hsome target)
    | cons container containers => rfl
  · rw [if_neg hlacks]
    split_ifs with hnone
    · rw [bestCandidates_eq_nil_of_not_lacks hlacks (Option.isNone_iff_eq_none.1 hnone)]
    · rfl

theorem namedAsComponent_eq_ofComponents (hapart : ∀ component ∈ graph.components,
    ∀ configuration ∈ graph.configurations, component.name ≠ configuration.name) :
    graph.namedAsComponent = graph.ofComponents := by
  refine List.filter_congr fun container hcontainer => ?_
  rw [Bool.eq_iff_iff, List.any_eq_true, decide_eq_true_eq]
  rcases List.mem_append.1 hcontainer with hmem | hmem
  · obtain ⟨component, hcomponent, rfl⟩ := List.mem_map.1 hmem
    exact iff_of_true ⟨component, hcomponent, decide_eq_true rfl⟩ rfl
  · obtain ⟨configuration, hconfiguration, rfl⟩ := List.mem_map.1 hmem
    refine iff_of_false ?_ nofun
    rintro ⟨component, hcomponent, hname⟩
    exact hapart component hcomponent configuration hconfiguration (of_decide_eq_true hname)

end ObjectGraph

/-! ## All reports on targets -/

namespace Foyer

def guest (asked : List (String × ClassName)) : ClassDecl :=
  { ClassDecl.ofClass ⟨"inn/Guest"⟩ with
    fields := asked.map fun entry =>
      ⟨entry.1, .ofClass entry.2, false, [.ofType Vocabulary.inject]⟩ }

def room (name : ClassName) (offered : List (String × ClassName)) : ClassDecl :=
  { ClassDecl.ofClass name with
    annotations := [.ofType Vocabulary.component]
    methods := offered.map fun entry =>
      { MethodDecl.emptyConstructor with
        name := entry.1
        returns := .ofClass entry.2
        annotations := [.ofType Vocabulary.provide] } }

def desk : ClassDecl :=
  { ClassDecl.ofInterface ⟨"inn/Desk"⟩ with annotations := [.ofType Vocabulary.contract] }

/-- A component that configures a contract, too. -/
def lobby : ClassDecl :=
  { (ClassDecl.ofClass ⟨"inn/Lobby"⟩).extendingGeneric
      (.applied Vocabulary.contractConfiguration [.ofClass desk.name]) with
    annotations := [.ofType Vocabulary.component] }

def path (decls : List ClassDecl) : ClassPath :=
  decls.foldl ClassPath.addInput ∅

def key : String × ClassName := ("key", ⟨"inn/Key"⟩)

def lamp : String × ClassName := ("lamp", ⟨"inn/Lamp"⟩)

def threeRooms : ClassPath :=
  path [room ⟨"inn/Hall"⟩ [lamp], room ⟨"inn/Attic"⟩ [], room ⟨"inn/Tower"⟩ [key],
    guest [key, lamp]]

def oneLobby : ClassPath :=
  path [lobby, desk, guest [key]]

def complaint (listed : String) : String :=
  "Dependencies of inn.Guest cannot be fully resolved by any component\n" ++
    "Best candidates and unresolved dependencies:" ++ listed

end Foyer

namespace ClassPath

/-- The last faults that validation reports are those of the targets that need a component: one for
each that has no component to serve it, with the containers that leave the least of it open.  The
containers are those whose class is that of a component, and these are the containers of components
where no class is a component and a configuration at once. -/
theorem target_faults_exact (path : ClassPath) (graph : ObjectGraph) (checkCycles : Bool) :
    (path.validate graph checkCycles).faults =
        path.structuralFaults graph ++
          graph.containers.flatMap (fun container =>
            container.faults (Wiring.ofRoot graph container.module) checkCycles) ++
          graph.unattachedFaults ++ graph.lackFaults graph.namedAsComponent ∧
      (∀ target container dependency, dependency ∈ graph.leaves target container ↔
        dependency ∈ target.dependencies ∧
          ¬ ∃ place, ProvidedAt graph container.module place dependency.key.boxed) ∧
      ((∀ component ∈ graph.components, ∀ configuration ∈ graph.configurations,
        component.name ≠ configuration.name) → graph.namedAsComponent = graph.ofComponents) := by
  refine ⟨?_, fun _ _ _ => ObjectGraph.mem_leaves, ObjectGraph.namedAsComponent_eq_ofComponents⟩
  rw [faults_validate, ObjectGraph.targetFaults_wirings]

set_option maxRecDepth 100000 in
theorem target_faults_exact_rooms :
    ∃ graph, (Foyer.threeRooms.readGraph "main").result = .ok graph ∧
      (∀ component ∈ graph.components, ∀ configuration ∈ graph.configurations,
        component.name ≠ configuration.name) ∧
      graph.ofComponents.length = 3 ∧ graph.namedAsComponent = graph.ofComponents ∧
      (Foyer.threeRooms.validate graph true).faults =
        [Foyer.complaint "\n  inn.Hall\n    inn.Key\n  inn.Tower\n    inn.Lamp"] := by
  have hread : (Foyer.threeRooms.readGraph "main").result.map (fun graph =>
      (graph.configurations.length, graph.ofComponents.length,
        (Foyer.threeRooms.validate graph true).faults)) =
      .ok (0, 3, [Foyer.complaint "\n  inn.Hall\n    inn.Key\n  inn.Tower\n    inn.Lamp"]) := by
    decide +kernel
  obtain ⟨graph, hgraph, hshown⟩ := exists_ok_of_map_eq_ok hread
  simp only [Prod.mk.injEq, List.length_eq_zero_iff] at hshown
  obtain ⟨hnone, hthree, hfaults⟩ := hshown
  have hapart : ∀ component ∈ graph.components, ∀ configuration ∈ graph.configurations,
      component.name ≠ configuration.name := by
    simp [hnone]
  exact ⟨graph, hgraph, hapart, hthree,
    (target_faults_exact Foyer.threeRooms graph true).2.2 hapart, hfaults⟩

set_option maxRecDepth 100000 in
/-- The lobby is the only component.  It is listed once more as the configuration of a contract. -/
theorem lobby_listed_twice :
    ∃ graph, (Foyer.oneLobby.readGraph "main").result = .ok graph ∧
      graph.ofComponents.length = 1 ∧
      graph.lackFaults graph.ofComponents =
        [Foyer.complaint "\n  inn.Lobby\n    inn.Key"] ∧
      (Foyer.oneLobby.validate graph true).faults =
        [Foyer.complaint "\n  inn.Lobby\n    inn.Key\n  inn.Lobby\n    inn.Key"] := by
  have hread : (Foyer.oneLobby.readGraph "main").result.map (fun graph =>
      (graph.ofComponents.length, graph.lackFaults graph.ofComponents,
        (Foyer.oneLobby.validate graph true).faults)) =
      .ok (1, [Foyer.complaint "\n  inn.Lobby\n    inn.Key"],
        [Foyer.complaint "\n  inn.Lobby\n    inn.Key\n  inn.Lobby\n    inn.Key"]) := by
    decide +kernel
  obtain ⟨graph, hgraph, hshown⟩ := exists_ok_of_map_eq_ok hread
  simp only [Prod.mk.injEq] at hshown
  exact ⟨graph, hgraph, hshown⟩

end ClassPath

end InjectionCompiler
