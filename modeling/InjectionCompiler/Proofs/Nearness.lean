import InjectionCompiler.Proofs.BreadthFirst
import InjectionCompiler.Proofs.Range

/-!
# Nearest first

The effective modules of a container are its root and all that the root imports, in breadth-first
order.  The ancestors of a class are what stands above it, in the same order; a class on a cycle
stands above itself and is listed, too.
-/

namespace InjectionCompiler

open Relation (ReflTransGen TransGen)

namespace SearchSpace

variable {α : Type} [DecidableEq α] {space : SearchSpace α}

theorem leads_of_takes {root : α} {listed : List α} {state : List α × List α}
    (h : ReflTransGen space.Takes (listed, [root]) state) {node : α} (hnode : node ∈ state.2) :
    space.Leads root node := by
  induction h generalizing node with
  | refl =>
      rw [List.mem_singleton.1 hnode]
      exact .refl root
  | tail _ htakes ih =>
      obtain ⟨listed, before, rest⟩ := htakes
      rcases List.mem_append.1 hnode with hrest | hnew
      · exact ih (List.mem_cons_of_mem _ hrest)
      · exact .step (ih (List.mem_cons_self ..)) (mem_unseen.1 hnew).1

theorem rel_of_idxOf_lt {r : α → α → Prop} {found : List α} (h : found.Pairwise r) {a b : α}
    (hb : b ∈ found) (hlt : found.idxOf a < found.idxOf b) : r a b := by
  have hindex := List.idxOf_lt_length_iff.2 hb
  have hpair := List.pairwise_iff_getElem.1 h _ _ (by omega) hindex hlt
  rwa [List.getElem_idxOf, List.getElem_idxOf] at hpair

theorem idxOf_lt_of_foundBefore {taken found : List α}
    (h : found.Pairwise (space.FoundBefore taken)) {a b : α} (ha : a ∈ found) (hne : a ≠ b)
    (hbefore : space.FoundBefore taken a b) : found.idxOf a < found.idxOf b := by
  by_contra hnot
  have hdiffer : found.idxOf a ≠ found.idxOf b := fun heq => hne ((List.idxOf_inj ha).1 heq)
  exact hbefore.asymm (rel_of_idxOf_lt h ha (by omega))

end SearchSpace

/-! ## Effective modules -/

namespace ObjectGraph

def Imports (graph : ObjectGraph) (importer imported : Id .module) : Prop :=
  ∃ module site, graph.modules.get? importer = some module ∧
    .module imported site ∈ module.imports

theorem step_importSpace {graph : ObjectGraph} {importer imported : Id .module} :
    graph.importSpace.Step importer imported ↔ graph.Imports importer imported := by
  change imported ∈ graph.importedModules importer ↔ _
  unfold importedModules Imports
  cases graph.modules.get? importer with
  | none => simp
  | some module =>
      simp only [Module.importedModules, List.mem_filterMap, Option.some.injEq]
      constructor
      · rintro ⟨declared, hdeclared, htarget⟩
        cases declared with
        | module target site =>
            cases htarget
            exact ⟨module, site, rfl, hdeclared⟩
        | contract => cases htarget
      · rintro ⟨_, site, rfl, hdeclared⟩
        exact ⟨_, hdeclared, rfl⟩

/-- The effective modules below a root are found breadth first. -/
structure EffectiveOrder (graph : ObjectGraph) (root : Id .module) : Prop where
  ends : WellFounded fun after before => graph.importSpace.Takes before after
  result : ReflTransGen graph.importSpace.Takes ([root], [root]) (graph.effectiveIds root, [])
  /-- No id is taken from the queue that has no module. -/
  found : ∀ state, ReflTransGen graph.importSpace.Takes ([root], [root]) state →
    ∀ id ∈ state.2, ∃ module, graph.modules.get? id = some module
  head : (graph.effectiveIds root).head? = some root
  mem_iff : ∀ id, id ∈ graph.effectiveIds root ↔ ReflTransGen graph.Imports root id
  nodup : (graph.effectiveIds root).Nodup
  order : graph.importSpace.BreadthFirst 0 root (graph.effectiveIds root) (graph.effectiveIds root)

theorem effectiveIds_breadth_first {graph : ObjectGraph}
    (himports : ∀ importer imported, graph.Imports importer imported →
      imported.index < graph.modules.size)
    {root : Id .module} (hroot : root.index < graph.modules.size) :
    graph.EffectiveOrder root where
  ends := SearchSpace.wellFounded_takes _
  result := SearchSpace.takes_visit [root] [root]
  found := by
    intro state hsteps id hid
    apply Arena.exists_get?_iff.2
    cases SearchSpace.leads_of_takes hsteps hid with
    | refl => exact hroot
    | step _ himported => exact himports _ _ (step_importSpace.1 himported)
  head := by
    obtain ⟨found, hvisit, -⟩ := graph.importSpace.exists_visit_eq [root] [root]
    have hids : graph.effectiveIds root = root :: found := hvisit
    rw [hids, List.head?_cons]
  mem_iff := by
    intro id
    have hstep : graph.importSpace.Step = graph.Imports := by
      funext importer imported
      exact propext step_importSpace
    rw [← hstep, ← SearchSpace.leads_iff]
    exact SearchSpace.mem_reach_iff
  nodup := SearchSpace.nodup_reach _ root
  order := SearchSpace.breadthFirst_reach _ root

namespace Maze

def site : ImportSite :=
  .field ⟨"maze/Hall"⟩ "ways"

def module (name : String) (imports : List Nat) : Module :=
  { Module.empty ⟨name⟩ with imports := imports.map fun index => .module ⟨index⟩ site }

def graph : ObjectGraph :=
  { (default : ObjectGraph) with
    modules := ⟨.ofList ([module "maze/Well" [1, 4], module "maze/Yard" [1, 3],
      module "maze/Hall" [3, 1, 3, 2], module "maze/Loft" [0, 2], module "maze/Gate" []].map
        fun module => (module.name, module))⟩ }

end Maze

theorem effectiveIds_breadth_first_maze :
    (∀ importer imported, Maze.graph.Imports importer imported →
      imported.index < Maze.graph.modules.size) ∧
    (2 : Nat) < Maze.graph.modules.size ∧ Maze.graph.EffectiveOrder ⟨2⟩ ∧
    Maze.graph.effectiveIds ⟨2⟩ = [⟨2⟩, ⟨3⟩, ⟨1⟩, ⟨0⟩, ⟨4⟩] := by
  have himports : ∀ importer imported, Maze.graph.Imports importer imported →
      imported.index < Maze.graph.modules.size := by
    intro importer imported himported
    have hall : ∀ id ∈ Maze.graph.allImportedModules, id.index < Maze.graph.modules.size := by
      decide +kernel
    exact hall imported (mem_allImportedModules (step_importSpace.2 himported))
  have hroot : (2 : Nat) < Maze.graph.modules.size := by decide +kernel
  exact ⟨himports, hroot, effectiveIds_breadth_first himports hroot, by decide +kernel⟩

end ObjectGraph

/-! ## Ancestors -/

namespace ClassPath

/-- The parents of a known class are its super class and its interfaces. -/
def Extends (path : ClassPath) (child parent : ClassName) : Prop :=
  ∃ decl, path.find? child = some decl ∧
    (decl.superClass = some parent ∨ parent ∈ decl.interfaces)

theorem step_hierarchy {path : ClassPath} {child parent : ClassName} :
    path.hierarchy.Step child parent ↔ path.Extends child parent := by
  change parent ∈ path.parents child ↔ _
  unfold parents Extends
  cases path.find? child with
  | none => simp
  | some decl => simp [ClassDecl.parents]

theorem mem_ancestors_iff {path : ClassPath} {name other : ClassName} :
    other ∈ path.ancestors name ↔ TransGen path.Extends name other := by
  have hstep : path.hierarchy.Step = path.Extends := by
    funext child parent
    exact propext step_hierarchy
  rw [← hstep]
  exact SearchSpace.mem_descend_iff

theorem parent_mem_ancestors {path : ClassPath} {name child parent : ClassName}
    (hchild : child ∈ name :: path.ancestors name) (hparent : parent ∈ path.parents child) :
    parent ∈ path.ancestors name := by
  have hstep := step_hierarchy.1 hparent
  apply mem_ancestors_iff.2
  rcases List.mem_cons.1 hchild with rfl | hmiddle
  · exact .single hstep
  · exact (mem_ancestors_iff.1 hmiddle).tail hstep

/-- The class that has the interface may not be the first that has the super class; then that one
stands before it. -/
theorem superClass_first {path : ClassPath} {name child parent interface : ClassName}
    {decl : ClassDecl} (hchild : child ∈ name :: path.ancestors name)
    (hdecl : path.find? child = some decl) (hparent : decl.superClass = some parent)
    (hne : interface ≠ parent)
    (hfinds : (name :: path.ancestors name).find? (fun node => interface ∈ path.parents node) =
      some child) :
    (path.ancestors name).idxOf parent < (path.ancestors name).idxOf interface := by
  have hparents : path.parents child = parent :: decl.interfaces := by
    simp [parents, hdecl, ClassDecl.parents, hparent]
  have hsuper : parent ∈ path.parents child := by simp [hparents]
  obtain ⟨first, hfirst, hmember, hle⟩ := path.hierarchy.exists_finder hchild hsuper
  apply SearchSpace.idxOf_lt_of_foundBefore (path.hierarchy.pairwise_descend name)
    (parent_mem_ancestors hchild hsuper) hne.symm
  refine ⟨first, child, hfirst, hfinds, ?_⟩
  by_cases heq : first = child
  · right
    subst heq
    refine ⟨rfl, ?_⟩
    change (path.parents first).idxOf parent < (path.parents first).idxOf interface
    rw [hparents, List.idxOf_cons_self, List.idxOf_cons_ne _ hne.symm]
    omega
  · left
    have hdiffer : (name :: path.ancestors name).idxOf first ≠
        (name :: path.ancestors name).idxOf child := fun h => heq ((List.idxOf_inj hmember).1 h)
    change (name :: path.ancestors name).idxOf first ≤ _ at hle
    exact lt_of_le_of_ne hle hdiffer

theorem mem_ancestors_proper_iff {path : ClassPath} {name : ClassName} :
    (∀ other, other ∈ path.ancestors name ↔ other ≠ name ∧ ReflTransGen path.Extends name other) ↔
      ¬ TransGen path.Extends name name := by
  constructor
  · intro hproper hcycle
    exact ((hproper name).1 (mem_ancestors_iff.2 hcycle)).1 rfl
  · intro hcycle other
    rw [mem_ancestors_iff, Relation.reflTransGen_iff_eq_or_transGen]
    constructor
    · intro habove
      exact ⟨fun heq => hcycle (heq ▸ habove), .inr habove⟩
    · rintro ⟨hne, heq | habove⟩
      · exact absurd heq hne
      · exact habove

/-- The ancestors of a class are what can be reached from it, found breadth first. -/
structure Ancestry (path : ClassPath) (name : ClassName) : Prop where
  ends : WellFounded fun after before => path.hierarchy.Takes before after
  result : ReflTransGen path.hierarchy.Takes ([], [name]) (path.ancestors name, [])
  mem_iff : ∀ other, other ∈ path.ancestors name ↔ TransGen path.Extends name other
  nodup : (path.ancestors name).Nodup
  order : path.hierarchy.BreadthFirst 1 name (name :: path.ancestors name) (path.ancestors name)
  /-- Of one class the super class stands before all interfaces that are found by that class. -/
  super_first : ∀ child decl parent interface, child ∈ name :: path.ancestors name →
    path.find? child = some decl → decl.superClass = some parent → interface ≠ parent →
    (name :: path.ancestors name).find? (fun node => interface ∈ path.parents node) = some child →
    (path.ancestors name).idxOf parent < (path.ancestors name).idxOf interface
  /-- A class is left out of its own ancestors exactly where it does not stand above itself. -/
  proper_iff : (∀ other, other ∈ path.ancestors name ↔
    other ≠ name ∧ ReflTransGen path.Extends name other) ↔ ¬ TransGen path.Extends name name

theorem ancestors_breadth_first (path : ClassPath) (name : ClassName) : path.Ancestry name := by
  constructor
  case ends => exact SearchSpace.wellFounded_takes _
  case result => exact SearchSpace.takes_visit [] [name]
  case mem_iff => exact fun _ => mem_ancestors_iff
  case nodup => exact SearchSpace.nodup_descend _ name
  case order => exact path.hierarchy.breadthFirst_descend name
  case super_first =>
    intro child decl parent interface hchild hdecl hparent hne hfinds
    exact superClass_first hchild hdecl hparent hne hfinds
  case proper_iff => exact mem_ancestors_proper_iff

/-- Two classes that each extend the other. -/
def circle : ClassPath :=
  (addInput ∅ ((ClassDecl.ofClass ⟨"inn/Bar"⟩).extending ⟨"inn/Inn"⟩)).addInput
    ((ClassDecl.ofClass ⟨"inn/Inn"⟩).extending ⟨"inn/Bar"⟩)

theorem own_ancestor_circle : circle.ancestors ⟨"inn/Bar"⟩ = [⟨"inn/Inn"⟩, ⟨"inn/Bar"⟩] ∧
    ¬ ∀ other, other ∈ circle.ancestors ⟨"inn/Bar"⟩ ↔
      other ≠ ⟨"inn/Bar"⟩ ∧ ReflTransGen circle.Extends ⟨"inn/Bar"⟩ other := by
  have hlisted : circle.ancestors ⟨"inn/Bar"⟩ = [⟨"inn/Inn"⟩, ⟨"inn/Bar"⟩] := by decide +kernel
  refine ⟨hlisted, fun hproper => ?_⟩
  have hself : ⟨"inn/Bar"⟩ ∈ circle.ancestors ⟨"inn/Bar"⟩ := by simp [hlisted]
  exact ((hproper _).1 hself).1 rfl

end ClassPath

end InjectionCompiler
