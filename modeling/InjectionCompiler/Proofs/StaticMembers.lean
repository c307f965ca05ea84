import InjectionCompiler.Proofs.Declarations
import InjectionCompiler.Proofs.Validity

/-!
# Static members

Validation goes through the classes that receive members and through the classes that can be
provided.  A class with exactly one injected constructor has its members in both lists, so that the
static ones among them are reported twice.
-/

namespace InjectionCompiler

/-- A field, a method or a constructor that is to be injected. -/
inductive InjectedMember where
  | field (owner : ClassName) (decl : FieldDecl)
  | method (owner : ClassName) (decl : MethodDecl)
  deriving DecidableEq, Repr

namespace InjectedMember

def owner : InjectedMember → ClassName
  | .field owner _ => owner
  | .method owner _ => owner

def isStatic : InjectedMember → Bool
  | .field _ decl => decl.isStatic
  | .method _ decl => decl.isStatic

/-- The message for the member where it is static. -/
def fault : InjectedMember → String
  | .field owner decl =>
      "Static field injection is not supported yet: " ++ memberName owner decl.name
  | .method owner decl =>
      "Static method injection is not supported yet: " ++ memberName owner decl.name

end InjectedMember

def InjectionPoint.member : InjectionPoint → InjectedMember
  | .field owner decl _ => .field owner decl
  | .method owner decl _ => .method owner decl

namespace ClassPath

variable {path : ClassPath} {project : String} {decl : ClassDecl}

/-- The injected fields, then the injected methods. -/
def injectedMembers (decl : ClassDecl) : List InjectedMember :=
  (injectedFields decl).map (.field decl.name) ++ (injectedMethods decl).map (.method decl.name)

def providedMembers (decl : ClassDecl) : List InjectedMember :=
  match injectedConstructors decl with
  | [constructor] => .method decl.name constructor :: injectedMembers decl
  | _ => []

def staticMembers (members : List InjectedMember) : List InjectedMember :=
  members.filter InjectedMember.isStatic

def staticReports (path : ClassPath) : List InjectedMember :=
  path.decls.flatMap fun decl => staticMembers (injectedMembers decl ++ providedMembers decl)

/-- What validation reports of anything but static members. -/
def otherFaults (path : ClassPath) (graph : ObjectGraph) (checkCycles : Bool) : List String :=
  graph.modules.items.flatMap path.moduleFaults ++
    graph.providable.flatMap (fun target => path.abstractFaults target.name) ++
    graph.factories.items.flatMap path.factoryFaults ++
    graph.bindings.flatMap path.bindingFaults ++
    graph.configurations.flatMap path.configurationFaults ++
    graph.containers.flatMap (fun container =>
      container.faults (Wiring.ofRoot graph container.module) checkCycles) ++
    graph.unattachedFaults ++ graph.targetFaults graph.wirings

/-! ## Targets and their members -/

theorem staticFaults_eq (target : InjectionTarget) : staticFaults target =
    (staticMembers (target.points.map InjectionPoint.member)).map InjectedMember.fault := by
  have hstatic (point : InjectionPoint) : point.member.isStatic = point.isStatic := by
    cases point <;> rfl
  have hfault (point : InjectionPoint) : point.member.fault = staticFault point := by
    cases point <;> rfl
  simp only [staticFaults, staticMembers, List.filter_map, List.map_map, Function.comp_def, hstatic,
    hfault]

theorem map_member_readMemberPoints (path : ClassPath) (decl : ClassDecl) :
    (path.readMemberPoints decl).value.map InjectionPoint.member = injectedMembers decl := by
  simp only [readMemberPoints, readFieldPoint, readMethodPoint, injectedMembers, Logged.value_bind,
    Logged.value_mapM, Logged.value_pure, List.map_append, List.map_map]
  rfl

theorem providedMembers_of_constructor {constructor : MethodDecl}
    (h : injectedConstructors decl = [constructor]) :
    providedMembers decl = .method decl.name constructor :: injectedMembers decl := by
  simp only [providedMembers, h]

theorem providedMembers_eq_nil (h : ∀ constructor, injectedConstructors decl ≠ [constructor]) :
    providedMembers decl = [] := by
  unfold providedMembers
  split
  case h_1 constructor hone => exact absurd hone (h constructor)
  case h_2 => rfl

theorem mem_providedMembers {member : InjectedMember} (h : member ∈ providedMembers decl) :
    ∃ constructor, injectedConstructors decl = [constructor] ∧
      (member = .method decl.name constructor ∨ member ∈ injectedMembers decl) := by
  unfold providedMembers at h
  split at h
  case h_1 constructor hone => exact ⟨constructor, hone, List.mem_cons.1 h⟩
  case h_2 => cases h

theorem flatMap_staticFaults_injectable (path : ClassPath) :
    path.readTargets.value.injectable.flatMap staticFaults =
      path.decls.flatMap fun decl =>
        (staticMembers (injectedMembers decl)).map InjectedMember.fault := by
  rw [injectable_readTargets, List.filterMap_eq_flatMap_toList, List.flatMap_assoc]
  refine List.flatMap_congr fun decl _ => ?_
  rw [← path.map_member_readMemberPoints decl]
  simp only [readTarget, readInjectable, Logged.value_bind, Logged.value_pure]
  cases (path.readMemberPoints decl).value with
  | nil => rfl
  | cons point points => exact (List.flatMap_singleton ..).trans (staticFaults_eq _)

theorem flatMap_staticFaults_providable (path : ClassPath) :
    path.readTargets.value.providable.flatMap staticFaults =
      path.decls.flatMap fun decl =>
        (staticMembers (providedMembers decl)).map InjectedMember.fault := by
  rw [providable_readTargets, List.filterMap_eq_flatMap_toList, List.flatMap_assoc]
  refine List.flatMap_congr fun decl _ => ?_
  simp only [readTarget, readProvidable, Logged.value_bind, Logged.value_pure]
  split
  case h_1 h => simp [providedMembers, h, staticMembers]
  case h_2 constructor h =>
    rw [providedMembers_of_constructor h, ← path.map_member_readMemberPoints decl]
    exact (List.flatMap_singleton ..).trans (staticFaults_eq _)
  case h_3 _ hmany =>
    rw [providedMembers_eq_nil hmany]
    rfl

/-! ## All faults -/

theorem faults_validate_perm {graph : ObjectGraph}
    (hinjectable : graph.injectable = path.readTargets.value.injectable)
    (hprovidable : graph.providable = path.readTargets.value.providable) (checkCycles : Bool) :
    (path.validate graph checkCycles).faults.Perm
      (path.staticReports.map InjectedMember.fault ++ path.otherFaults graph checkCycles) := by
  have hstatic : (graph.injectable.flatMap staticFaults ++
      graph.providable.flatMap staticFaults).Perm
        (path.staticReports.map InjectedMember.fault) := by
    rw [hinjectable, hprovidable, flatMap_staticFaults_injectable, flatMap_staticFaults_providable]
    simp only [staticReports, staticMembers, List.map_flatMap, List.filter_append, List.map_append]
    exact List.flatMap_append_perm ..
  -- The classes that can be provided are checked one by one, each for both kinds of faults.
  have hboth := List.flatMap_append_perm graph.providable staticFaults
    fun target => path.abstractFaults target.name
  refine List.perm_iff_count.2 fun message => ?_
  have hcount := hstatic.count_eq message
  have hsplit := hboth.count_eq message
  simp only [faults_validate, structuralFaults, otherFaults, List.count_append] at hcount hsplit ⊢
  omega

/-! ## How often a member is reported -/

theorem owner_of_mem_injectedMembers {member : InjectedMember} (h : member ∈ injectedMembers decl) :
    member.owner = decl.name := by
  simp only [injectedMembers, List.mem_append, List.mem_map] at h
  obtain ⟨_, _, rfl⟩ | ⟨_, _, rfl⟩ := h <;> rfl

theorem owner_of_mem_providedMembers {member : InjectedMember} (h : member ∈ providedMembers decl) :
    member.owner = decl.name := by
  obtain ⟨constructor, -, rfl | hmember⟩ := mem_providedMembers h
  · rfl
  · exact owner_of_mem_injectedMembers hmember

theorem constructor_notMem_injectedMembers {constructor : MethodDecl}
    (h : constructor ∈ injectedConstructors decl) :
    .method decl.name constructor ∉ injectedMembers decl := by
  simp_all [injectedMembers, injectedConstructors, injectedMethods, ClassDecl.constructors,
    ClassDecl.plainMethods]

theorem count_staticMembers (members : List InjectedMember) (member : InjectedMember) :
    (staticMembers members).count member = if member.isStatic then members.count member else 0 := by
  split
  case isTrue hstatic => exact List.count_filter hstatic
  case isFalse hstatic => simp [staticMembers, List.count_eq_zero, hstatic]

theorem count_flatMap_of_owner {α β κ : Type} [DecidableEq β] {key : α → κ} {owner : β → κ}
    {listed : α → List β} (howner : ∀ x, ∀ y ∈ listed x, owner y = key x) {xs : List α}
    (hnodup : (xs.map key).Nodup) {x : α} (hx : x ∈ xs) {y : β} (hy : owner y = key x) :
    (xs.flatMap listed).count y = (listed x).count y := by
  induction xs with
  | nil => cases hx
  | cons z zs ih =>
      rw [List.map_cons, List.nodup_cons] at hnodup
      rw [List.flatMap_cons, List.count_append]
      obtain rfl | hmem := List.mem_cons.1 hx
      · have hrest : y ∉ zs.flatMap listed := by
          intro h
          obtain ⟨w, hw, hyw⟩ := List.mem_flatMap.1 h
          exact hnodup.1 (List.mem_map.2 ⟨w, hw, by rw [← howner w y hyw, hy]⟩)
        rw [List.count_eq_zero.2 hrest, Nat.add_zero]
      · have hfirst : y ∉ listed z := by
          intro h
          exact hnodup.1 (List.mem_map.2 ⟨x, hmem, by rw [← howner z y h, hy]⟩)
        rw [List.count_eq_zero.2 hfirst, Nat.zero_add, ih hnodup.2 hmem]

theorem count_staticReports (hdecl : decl ∈ path.decls) {member : InjectedMember}
    (howner : member.owner = decl.name) :
    path.staticReports.count member =
      if member.isStatic then
        (injectedMembers decl).count member + (providedMembers decl).count member
      else 0 := by
  have howners (other : ClassDecl) (found : InjectedMember)
      (h : found ∈ staticMembers (injectedMembers other ++ providedMembers other)) :
      found.owner = other.name := by
    obtain hinjected | hprovided := List.mem_append.1 (List.mem_filter.1 h).1
    · exact owner_of_mem_injectedMembers hinjected
    · exact owner_of_mem_providedMembers hprovided
  rw [staticReports, count_flatMap_of_owner howners path.nodup_decls hdecl howner,
    count_staticMembers, List.count_append]

/-- Every static member that is injected stands in the list, and nothing else does.  Members count
twice where the class can be provided. -/
structure ReportsStatic (path : ClassPath) (reports : List InjectedMember) : Prop where
  members : ∀ decl ∈ path.decls, ∀ member ∈ injectedMembers decl,
    reports.count member =
      if member.isStatic then
        (if (injectedConstructors decl).length = 1 then 2 else 1) *
          (injectedMembers decl).count member
      else 0
  constructors : ∀ decl ∈ path.decls, ∀ constructor, injectedConstructors decl = [constructor] →
    reports.count (.method decl.name constructor) = if constructor.isStatic then 1 else 0
  only : ∀ member ∈ reports, ∃ decl ∈ path.decls,
    member ∈ injectedMembers decl ∨
      ∃ constructor, injectedConstructors decl = [constructor] ∧
        member = .method decl.name constructor

theorem count_providedMembers {member : InjectedMember} (h : member ∈ injectedMembers decl) :
    (providedMembers decl).count member =
      if (injectedConstructors decl).length = 1 then (injectedMembers decl).count member
      else 0 := by
  split
  case isTrue hone =>
    obtain ⟨constructor, hconstructor⟩ := List.length_eq_one_iff.1 hone
    have hne : InjectedMember.method decl.name constructor ≠ member := by
      rintro rfl
      exact constructor_notMem_injectedMembers (by simp [hconstructor]) h
    rw [providedMembers_of_constructor hconstructor, List.count_cons_of_ne hne]
  case isFalse hmany =>
    rw [providedMembers_eq_nil fun constructor hone => hmany (by rw [hone]; rfl)]
    rfl

theorem reportsStatic_staticReports (path : ClassPath) : path.ReportsStatic path.staticReports := by
  constructor
  case members =>
    intro decl hdecl member hmember
    rw [count_staticReports hdecl (owner_of_mem_injectedMembers hmember),
      count_providedMembers hmember]
    split_ifs <;> omega
  case constructors =>
    intro decl hdecl constructor hconstructor
    have hnone : (injectedMembers decl).count (.method decl.name constructor) = 0 :=
      List.count_eq_zero.2 (constructor_notMem_injectedMembers (by simp [hconstructor]))
    rw [count_staticReports hdecl rfl, providedMembers_of_constructor hconstructor,
      List.count_cons_self, hnone]
    rfl
  case only =>
    intro member hmember
    obtain ⟨decl, hdecl, hlisted⟩ := List.mem_flatMap.1 hmember
    refine ⟨decl, hdecl, ?_⟩
    obtain hinjected | hprovided := List.mem_append.1 (List.mem_filter.1 hlisted).1
    · exact .inl hinjected
    · obtain ⟨constructor, hone, rfl | hinjected⟩ := mem_providedMembers hprovided
      · exact .inr ⟨constructor, hone, rfl⟩
      · exact .inl hinjected

end ClassPath

/-! ## A cinema -/

namespace Cinema

def field (name : String) (isStatic : Bool) : FieldDecl :=
  ⟨name, .ofClass Vocabulary.injector, isStatic, [.ofType Vocabulary.inject]⟩

def method (name : String) (isStatic : Bool) : MethodDecl :=
  { MethodDecl.emptyConstructor with
    name := name
    isStatic := isStatic
    annotations := [.ofType Vocabulary.inject] }

def hall : ClassDecl :=
  { ClassDecl.ofClass ⟨"cinema/Hall"⟩ with annotations := [.ofType Vocabulary.component] }

def seat : ClassDecl :=
  { ClassDecl.ofClass ⟨"cinema/Seat"⟩ with
    fields := [field "row" true, field "number" false]
    methods := [method "fold" true] }

/-- A class with an injected constructor, which the hall provides. -/
def screen : ClassDecl :=
  { ClassDecl.ofClass ⟨"cinema/Screen"⟩ with
    annotations := [.set (.ofType Vocabulary.providedBy) "value"
      (.array [.type (.object hall.name)])]
    fields := [field "injector" true]
    methods := [method MethodDecl.constructorName false] }

def path : ClassPath :=
  [hall, seat, screen].foldl ClassPath.addInput ∅

def screenOnly : ClassPath :=
  [hall, screen].foldl ClassPath.addInput ∅

def fieldFault (field : String) : String :=
  "Static field injection is not supported yet: cinema." ++ field

def methodFault (method : String) : String :=
  "Static method injection is not supported yet: cinema." ++ method

end Cinema

namespace ClassPath

variable {path : ClassPath} {project : String}

/-- Validation reports each static member that is injected, and that of a class that can be
provided once more.  None of its other faults is about a static member. -/
theorem static_members_reported {graph : ObjectGraph}
    (h : (path.readGraph project).result = .ok graph) (checkCycles : Bool) :
    ∃ reports, path.ReportsStatic reports ∧
      (path.validate graph checkCycles).faults.Perm
        (reports.map InjectedMember.fault ++ path.otherFaults graph checkCycles) := by
  obtain ⟨marked, book, configured, hportrays, -⟩ := portrays_of_readGraph h
  exact ⟨path.staticReports, path.reportsStatic_staticReports,
    faults_validate_perm hportrays.injectable hportrays.providable checkCycles⟩

set_option maxRecDepth 100000 in
theorem static_members_reported_cinema :
    ∃ graph, (Cinema.path.readGraph "main").result = .ok graph ∧
      (Cinema.path.validate graph true).faults =
        [Cinema.fieldFault "Seat.row", Cinema.methodFault "Seat.fold",
          Cinema.fieldFault "Screen.injector", Cinema.fieldFault "Screen.injector"] ∧
      ∃ reports, Cinema.path.ReportsStatic reports ∧
        (Cinema.path.validate graph true).faults.Perm
          (reports.map InjectedMember.fault ++ Cinema.path.otherFaults graph true) := by
  have hread : (Cinema.path.readGraph "main").result.map (fun graph =>
      (Cinema.path.validate graph true).faults) =
      .ok [Cinema.fieldFault "Seat.row", Cinema.methodFault "Seat.fold",
        Cinema.fieldFault "Screen.injector", Cinema.fieldFault "Screen.injector"] := by
    decide +kernel
  obtain ⟨graph, hgraph, hfaults⟩ := exists_ok_of_map_eq_ok hread
  exact ⟨graph, hgraph, hfaults, static_members_reported hgraph true⟩

set_option maxRecDepth 100000 in
/-- The screen has one member besides its constructor, a static field. -/
theorem static_field_reported_twice :
    injectedMembers Cinema.screen =
        [.field Cinema.screen.name (Cinema.field "injector" true)] ∧
      faults (Cinema.screenOnly.readGraph "main").events = [] ∧
      ∃ graph, (Cinema.screenOnly.readGraph "main").result = .ok graph ∧
        (Cinema.screenOnly.validate graph true).faults =
          [Cinema.fieldFault "Screen.injector", Cinema.fieldFault "Screen.injector"] := by
  have hread : (Cinema.screenOnly.readGraph "main").result.map (fun graph =>
      (Cinema.screenOnly.validate graph true).faults) =
      .ok [Cinema.fieldFault "Screen.injector", Cinema.fieldFault "Screen.injector"] := by
    decide +kernel
  exact ⟨by decide +kernel, by decide +kernel, exists_ok_of_map_eq_ok hread⟩

end ClassPath

end InjectionCompiler
