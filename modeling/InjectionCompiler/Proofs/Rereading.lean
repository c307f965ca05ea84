import InjectionCompiler.Proofs.Contracts
import InjectionCompiler.Proofs.Declarations

/-!
# Reading rearranged paths

A rearranged path is read at the same toll.  Its graph has the same contracts, and so many faults
were reported of both.
-/

namespace InjectionCompiler

open SearchSpace (unseen)

theorem find?_key_eq_some_iff {α κ : Type} [DecidableEq κ] {key : α → κ} {xs : List α}
    (hnodup : (xs.map key).Nodup) {k : κ} {x : α} :
    xs.find? (fun y => key y = k) = some x ↔ x ∈ xs ∧ key x = k := by
  constructor
  · intro h
    exact ⟨List.mem_of_find?_eq_some h, by simpa using List.find?_some h⟩
  · rintro ⟨hx, rfl⟩
    obtain ⟨y, hfind⟩ : ∃ y, xs.find? (fun y => key y = key x) = some y :=
      Option.isSome_iff_exists.1 (List.find?_isSome.2 ⟨x, hx, decide_eq_true rfl⟩)
    have hkey : key y = key x := by simpa using List.find?_some hfind
    rw [hfind, List.inj_on_of_nodup_map hnodup (List.mem_of_find?_eq_some hfind) hx hkey]

theorem find?_key_perm {α κ : Type} [DecidableEq κ] {key : α → κ} {xs ys : List α}
    (hnodup : (xs.map key).Nodup) (hperm : xs.Perm ys) (k : κ) :
    ys.find? (fun y => key y = k) = xs.find? (fun y => key y = k) := by
  refine Option.ext fun x => ?_
  rw [find?_key_eq_some_iff hnodup, find?_key_eq_some_iff ((hperm.map key).nodup hnodup),
    hperm.mem_iff]

theorem hostedBy_perm {α : Type} {declared others : List (ClassName × α)}
    (h : declared.Perm others) (container : ClassName) :
    (hostedBy declared container).Perm (hostedBy others container) :=
  (h.filter _).map _

theorem unseen_perm {α : Type} [DecidableEq α] {xs ys : List α} (h : xs.Perm ys) :
    (unseen [] xs).Perm (unseen [] ys) := by
  refine (List.perm_ext_iff_of_nodup (SearchSpace.nodup_unseen _ _)
    (SearchSpace.nodup_unseen _ _)).2 fun x => ?_
  rw [SearchSpace.mem_unseen, SearchSpace.mem_unseen, h.mem_iff]

theorem Toll.sum_map_perm {α : Type} {xs ys : List α} (hperm : xs.Perm ys) {toll toll' : α → Toll}
    (htoll : ∀ x, toll' x = toll x) : (ys.map toll').sum = (xs.map toll).sum := by
  rw [funext htoll]
  exact (hperm.map toll).sum_eq.symm

namespace ClassPath

variable {path other : ClassPath}

/-! ## Provision points -/

def constructorOf (path : ClassPath) (name : ClassName) : Logged (Option ProvisionPoint) :=
  path.readConstructorPoint
    { project := ""
      hosting := ⟨[], path.hosted path.providedNames, [], []⟩
      bindings := ∅
      providable := path.readTargets.value.providable
      factories := ∅
      configured := [] } name

def hostedClasses (path : ClassPath) (container : ClassName) : List ClassName :=
  hostedBy (path.hosted path.providedNames) container

def hostedPoints (path : ClassPath) (container : ClassName) : List ProvisionPoint :=
  (path.hostedClasses container).filterMap fun name => (path.constructorOf name).value

def memberPoints (path : ClassPath) (decl : ClassDecl) : Logged (List ProvisionPoint) := do
  let provided := fun (isStatic : Bool) (annotations : List Annotation) =>
    !isStatic && isAnnotated annotations Vocabulary.provide
  let methods ← (decl.plainMethods.filter fun method =>
      provided method.isStatic method.annotations).mapM (path.readMethodProvision decl.name)
  let fields ← (decl.fields.filter fun field =>
      provided field.isStatic field.annotations).mapM (path.readFieldProvision decl.name)
  return methods.filterMap id ++ fields

theorem value_pointsOf (decl : ClassDecl) : (path.pointsOf decl).value =
    path.hostedPoints decl.name ++ (path.memberPoints decl).value := by
  simp only [pointsOf, readProvisionPoints, memberPoints, Logged.value_bind, Logged.value_pure,
    Logged.value_mapM, List.filterMap_map, List.append_assoc]
  rfl

theorem faults_pointsOf (decl : ClassDecl) : (path.pointsOf decl).faults =
    (path.hostedClasses decl.name).flatMap (fun name => (path.constructorOf name).faults) ++
      (path.memberPoints decl).faults := by
  simp only [pointsOf, readProvisionPoints, memberPoints, Logged.faults_bind, Logged.faults_pure,
    Logged.faults_mapM, List.append_nil]
  rfl

theorem nodup_providable :
    (path.readTargets.value.providable.map InjectionTarget.name).Nodup := by
  simp only [readTargets, Logged.value_bind, Logged.value_pure, Logged.value_mapM,
    List.filterMap_map]
  exact path.nodup_decls.sublist (map_filterMap_sublist
    (fun decl target h => name_of_readTarget h) path.decls)

namespace Rearranges

section

variable (h : path.Rearranges other)

include h

theorem constructorOf (name : ClassName) :
    other.constructorOf name = path.constructorOf name := by
  have hfind := find?_key_perm nodup_providable h.providable_perm name
  simp only [ClassPath.constructorOf, readConstructorPoint, hfind, h.find?_eq, h.readQualifier,
    h.readScope]

theorem hosted_perm : (path.hosted path.providedNames).Perm (other.hosted other.providedNames) := by
  have hhosts : other.hosts = path.hosts := funext h.hosts
  unfold hosted
  rw [hhosts]
  exact h.providedNames_perm.flatMap_right _

theorem hostedClasses_perm (container : ClassName) :
    (path.hostedClasses container).Perm (other.hostedClasses container) :=
  hostedBy_perm h.hosted_perm container

theorem hostedPoints_perm (container : ClassName) :
    (path.hostedPoints container).Perm (other.hostedPoints container) := by
  have hconstructor : other.constructorOf = path.constructorOf := funext h.constructorOf
  unfold hostedPoints
  rw [hconstructor]
  exact (h.hostedClasses_perm container).filterMap _

theorem memberPoints (decl : ClassDecl) : other.memberPoints decl = path.memberPoints decl := by
  have hmethod : other.readMethodProvision decl.name = path.readMethodProvision decl.name := by
    funext method
    simp only [readMethodProvision, h.readQualifier, h.readScope, h.readParameters]
  have hfield : other.readFieldProvision decl.name = path.readFieldProvision decl.name := by
    funext field
    simp only [readFieldProvision, h.readQualifier, h.readScope]
  simp only [ClassPath.memberPoints, hmethod, hfield]

theorem length_faults_pointsOf (decl : ClassDecl) :
    (other.pointsOf decl).faults.length = (path.pointsOf decl).faults.length := by
  have hconstructor : other.constructorOf = path.constructorOf := funext h.constructorOf
  rw [faults_pointsOf, faults_pointsOf, h.memberPoints, hconstructor]
  exact (((h.hostedClasses_perm decl.name).flatMap_right _).append_right _).length_eq.symm

/-! ## Tolls -/

theorem hostToll (name : ClassName) : other.hostToll name = path.hostToll name := by
  simp only [ClassPath.hostToll, hostList?, h.find?_eq, h.listFaults]

theorem hostingToll {factories factories' contracts contracts' : List ClassName}
    (hfactories : factories.Perm factories') (hcontracts : contracts.Perm contracts') :
    other.hostingToll factories' contracts' = path.hostingToll factories contracts := by
  have himporters : ∀ decl, other.importersToll decl = path.importersToll decl := by
    intro decl
    simp only [importersToll, h.listFaults]
  rw [ClassPath.hostingToll, ClassPath.hostingToll, Toll.sum_map_perm h.moduleDecls_perm himporters,
    Toll.sum_map_perm h.providedNames_perm h.hostToll, Toll.sum_map_perm hfactories h.hostToll,
    Toll.sum_map_perm hcontracts h.hostToll]

theorem contractDecls_perm : path.contractDecls.Perm other.contractDecls :=
  h.decls_perm.filter _

theorem length_faults_readTargets :
    other.readTargets.faults.length = path.readTargets.faults.length := by
  simp only [readTargets, Logged.faults_bind, Logged.faults_pure, Logged.faults_mapM, h.readTarget]
  exact ((h.decls_perm.flatMap_right _).append_right _).length_eq.symm

theorem length_faults_readBindings :
    other.readBindings.faults.length = path.readBindings.faults.length := by
  simp only [readBindings, Logged.faults_bind, Logged.faults_pure, Logged.faults_mapM,
    h.readClassBindings]
  exact ((h.decls_perm.flatMap_right _).append_right _).length_eq.symm

variable {keeping keeping' : Bookkeeping} (hreadable : keeping'.Readable = keeping.Readable)

include hreadable

theorem namedModuleToll (name : ClassName) :
    other.namedModuleToll keeping' name = path.namedModuleToll keeping name := by
  have hasking : keeping'.asking = keeping.asking := by
    funext name
    rw [Bookkeeping.asking, Bookkeeping.asking, hreadable]
  have hmember : other.memberToll keeping' = path.memberToll keeping := by
    funext annotations type
    simp only [memberToll, importedToll, hasking, h.bears, h.find?_eq]
  have hmodule : other.moduleToll keeping' = path.moduleToll keeping := by
    funext decl
    have hmethod : other.methodToll keeping' = path.methodToll keeping := by
      funext method
      simp only [methodToll, hmember]
    have hfield : other.fieldToll keeping' = path.fieldToll keeping := by
      funext field
      simp only [fieldToll, hmember]
    simp only [moduleToll, importsToll, hmethod, hfield, h.length_faults_pointsOf]
  simp only [ClassPath.namedModuleToll, h.find?_eq, hmodule]

theorem graphToll : other.graphToll keeping' = path.graphToll keeping := by
  have hasking : keeping'.asking = keeping.asking := by
    funext name
    rw [Bookkeeping.asking, Bookkeeping.asking, hreadable]
  have hmarked : ∀ decl, other.markedToll keeping' decl = path.markedToll keeping decl := by
    intro decl
    simp only [markedToll, factoryToll, contractToll, h.readFactory, hasking]
  have hroot : ∀ decl, rootToll keeping' decl = rootToll keeping decl := by
    intro decl
    simp only [rootToll, configurationToll, hasking]
  rw [ClassPath.graphToll, ClassPath.graphToll, h.length_faults_readTargets,
    h.length_faults_readBindings, Toll.sum_map_perm h.decls_perm hmarked,
    h.hostingToll (h.factories_perm.map _) (h.contractDecls_perm.map _),
    Toll.sum_map_perm h.decls_perm hroot,
    Toll.sum_map_perm (unseen_perm h.rootNames_perm) (h.namedModuleToll hreadable)]

end

end Rearranges

theorem Rearranges.graphToll_exact (h : path.Rearranges other) (hlayered : path.Layered)
    (hothers : other.Layered) (project : String) :
    other.graphToll (other.exact hothers project) = path.graphToll (path.exact hlayered project) :=
  h.graphToll h.legible

/-! ## Reading -/

/-- The graph was read from the path, with so many faults and with an exact book of contracts. -/
structure ReadExactly (path : ClassPath) (hlayered : path.Layered) (project : String)
    (marked book : ContractBook) (configured : List (ClassName × Id .contract))
    (graph : ObjectGraph) (count : Nat) : Prop where
  portrays : path.Portrays project marked book configured graph
  exact : ContractBook.Exact path hlayered project book
  mem_names_iff : ∀ name, name ∈ book.contracts.names ↔
    name ∈ (path.graphToll (path.exact hlayered project)).asked
  count_eq : count = (path.graphToll (path.exact hlayered project)).faults +
    book.spent path hlayered

theorem settles_readExactly (path : ClassPath) (hlayered : path.Layered) (project : String) :
    (path.readGraph project).Settles True (path.graphToll (path.exact hlayered project)).fine
      fun graph count => ∃ marked book configured,
        path.ReadExactly hlayered project marked book configured graph count := by
  refine (settles_readGraph (exact_looks path hlayered project)).mono fun graph count hread => ?_
  obtain ⟨marked, book, configured, hportrays, hadvances⟩ := hread
  refine ⟨marked, book, configured, hportrays, hadvances.sound, fun name => ?_, ?_⟩
  · rw [hadvances.mem_names_iff]
    exact or_iff_right List.not_mem_nil
  · have hcount := hadvances.count_eq trivial
    have hnone : (path.exact hlayered project).spent ∅ = 0 := rfl
    rw [hnone] at hcount
    exact hcount

namespace ReadExactly

variable {hlayered : path.Layered} {hothers : other.Layered} {project : String}
  {marked book marked' book' : ContractBook}
  {configured configured' : List (ClassName × Id .contract)}
  {graph graph' : ObjectGraph} {count count' : Nat}

theorem names_perm (h : path.Rearranges other)
    (hread : path.ReadExactly hlayered project marked book configured graph count)
    (hread' : other.ReadExactly hothers project marked' book' configured' graph' count') :
    book.contracts.names.Perm book'.contracts.names := by
  refine (List.perm_ext_iff_of_nodup book.contracts.table.distinct
    book'.contracts.table.distinct).2 fun name => ?_
  have htoll := h.graphToll_exact hlayered hothers project
  exact (hread.mem_names_iff name).trans (htoll ▸ (hread'.mem_names_iff name).symm)

theorem count_eq_of_rearranges (h : path.Rearranges other)
    (hread : path.ReadExactly hlayered project marked book configured graph count)
    (hread' : other.ReadExactly hothers project marked' book' configured' graph' count') :
    count' = count := by
  rw [hread.count_eq, hread'.count_eq, h.graphToll_exact hlayered hothers project,
    h.spent_eq hread.exact hread'.exact (hread.names_perm h hread')]

end ReadExactly

end ClassPath

end InjectionCompiler
