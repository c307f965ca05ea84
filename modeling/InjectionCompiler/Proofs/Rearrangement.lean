import InjectionCompiler.Proofs.Roots
import InjectionCompiler.Proofs.Search

/-!
# Rearranged class paths

Two class paths with the same classes, of the same standing, differ in the order of their names and
in nothing else.  What is read of one class looks other classes up by their names, so that it is the
same on both paths.
-/

namespace InjectionCompiler

namespace ClassPath

/-- The other path has the same classes, of the same standing. -/
structure Rearranges (path other : ClassPath) : Prop where
  find?_eq : other.find? = path.find?
  isInput_eq : other.isInput = path.isInput
  registered_perm : path.registered.Perm other.registered

namespace Rearranges

variable {path other : ClassPath}

theorem names_perm (h : path.Rearranges other) : path.names.Perm other.names := by
  unfold names
  rw [h.isInput_eq]
  exact (h.registered_perm.filter _).append (h.registered_perm.filter _)

theorem decls_perm (h : path.Rearranges other) : path.decls.Perm other.decls := by
  unfold decls
  rw [h.find?_eq]
  exact h.names_perm.filterMap _

/-! ## Elements -/

section

variable (h : path.Rearranges other)

include h

theorem bears (name type : ClassName) : other.bears name type = path.bears name type := by
  simp only [ClassPath.bears, h.find?_eq]

theorem ancestors (name : ClassName) : other.ancestors name = path.ancestors name := by
  have hnext : other.hierarchy.next = path.hierarchy.next := by
    funext name
    simp only [hierarchy, parents, h.find?_eq]
  exact SearchSpace.visit_congr hnext _ _

theorem qualifiers (annotations : List Annotation) :
    other.qualifiers annotations = path.qualifiers annotations := by
  simp only [ClassPath.qualifiers, isQualifier, h.bears]

theorem scopes (annotations : List Annotation) :
    other.scopes annotations = path.scopes annotations := by
  have hscope : other.isScope = path.isScope := by
    funext type
    simp only [isScope, h.bears]
  simp only [ClassPath.scopes, hscope]

theorem readQualifier (annotations : List Annotation) (element : String) :
    other.readQualifier annotations element = path.readQualifier annotations element := by
  simp only [ClassPath.readQualifier, h.qualifiers]

theorem readScope (annotations : List Annotation) (element : String) :
    other.readScope annotations element = path.readScope annotations element := by
  simp only [ClassPath.readScope, h.scopes]

theorem readInjectee (type : Signature) (annotations : List Annotation) (element : String) :
    other.readInjectee type annotations element = path.readInjectee type annotations element := by
  simp only [ClassPath.readInjectee, h.readQualifier]

theorem readParameters (owner : ClassName) (method : MethodDecl) :
    other.readParameters owner method = path.readParameters owner method := by
  simp only [ClassPath.readParameters, h.readInjectee]

/-! ## Entities of a class -/

theorem readTarget (decl : ClassDecl) : other.readTarget decl = path.readTarget decl := by
  have hfield : other.readFieldPoint decl.name = path.readFieldPoint decl.name := by
    funext field
    simp only [readFieldPoint, h.readInjectee]
  have hmethod : other.readMethodPoint decl.name = path.readMethodPoint decl.name := by
    funext method
    simp only [readMethodPoint, h.readParameters]
  simp only [ClassPath.readTarget, readMemberPoints, readProvidable, hfield, hmethod]

theorem readClassBindings (decl : ClassDecl) :
    other.readClassBindings decl = path.readClassBindings decl := by
  simp only [ClassPath.readClassBindings, h.readQualifier]

theorem readOwnGetters (decl : ClassDecl) :
    other.readOwnGetters decl = path.readOwnGetters decl := by
  have hgetter : other.readGetter decl = path.readGetter decl := by
    funext method
    simp only [readGetter, h.readInjectee]
  simp only [ClassPath.readOwnGetters, hgetter]

theorem knownAncestors (name : ClassName) :
    other.knownAncestors name = path.knownAncestors name := by
  simp only [ClassPath.knownAncestors, h.ancestors, h.find?_eq]

theorem factoryMethods (decl : ClassDecl) :
    other.factoryMethods decl = path.factoryMethods decl := by
  simp only [ClassPath.factoryMethods, h.knownAncestors]

theorem readFactory (decl : ClassDecl) : other.readFactory decl = path.readFactory decl := by
  have hcontext : ∀ owner method, other.factoryMethodContext decl owner method =
      path.factoryMethodContext decl owner method := by
    intro owner method
    simp only [factoryMethodContext, forgottenReturn?, h.knownAncestors]
  have hmethod : ∀ owner method, other.readFactoryMethod decl owner method =
      path.readFactoryMethod decl owner method := by
    intro owner method
    simp only [readFactoryMethod, hcontext, h.readParameters, h.find?_eq]
  simp only [ClassPath.readFactory, h.readQualifier, h.factoryMethods, hmethod]

theorem factoryOf? (decl : ClassDecl) : other.factoryOf? decl = path.factoryOf? decl := by
  simp only [ClassPath.factoryOf?, h.readFactory]

/-! ## Containers -/

theorem isContainer (name : ClassName) : other.isContainer name = path.isContainer name := by
  simp only [ClassPath.isContainer, h.find?_eq]

theorem container? (hosted : ClassName) (entry : Literal) :
    other.container? hosted entry = path.container? hosted entry := by
  have hcontainer : other.isContainer = path.isContainer := funext h.isContainer
  unfold ClassPath.container? isForeignHost
  rw [hcontainer, h.isInput_eq]

theorem containers (hosted : ClassName) (entries : Option (List Literal)) :
    other.containers hosted entries = path.containers hosted entries := by
  have hentry : other.container? hosted = path.container? hosted := funext (h.container? hosted)
  simp only [ClassPath.containers, hentry]

theorem listFaults (hosted : ClassName) (entries : Option (List Literal)) :
    other.listFaults hosted entries = path.listFaults hosted entries := by
  unfold ClassPath.listFaults
  simp only [h.container?]

theorem hosts (name : ClassName) : other.hosts name = path.hosts name := by
  simp only [ClassPath.hosts, hostList?, h.containers, h.find?_eq]

theorem importers (decl : ClassDecl) : other.importers decl = path.importers decl := by
  simp only [ClassPath.importers, h.containers]

theorem methodImport? (owner : ClassName) (method : MethodDecl) :
    other.methodImport? owner method = path.methodImport? owner method := by
  simp only [ClassPath.methodImport?, memberImport?, h.bears]

theorem fieldImport? (owner : ClassName) (field : FieldDecl) :
    other.fieldImport? owner field = path.fieldImport? owner field := by
  simp only [ClassPath.fieldImport?, memberImport?, h.bears]

end

/-! ## Lists of classes -/

section

variable (h : path.Rearranges other)

include h

theorem moduleDecls_perm : path.moduleDecls.Perm other.moduleDecls :=
  h.decls_perm.filter _

theorem importedBy_perm : path.importedBy.Perm other.importedBy := by
  unfold importedBy
  simp only [h.importers]
  exact h.moduleDecls_perm.flatMap_right _

theorem factories_perm : path.factories.Perm other.factories := by
  have hread : other.factoryOf? = path.factoryOf? := funext h.factoryOf?
  unfold factories
  rw [hread]
  exact h.decls_perm.filterMap _

theorem componentNames_perm : path.componentNames.Perm other.componentNames :=
  h.decls_perm.filterMap _

theorem configurations_perm : path.configurations.Perm other.configurations :=
  h.decls_perm.filterMap _

theorem rootNames_perm : path.rootNames.Perm other.rootNames :=
  (h.componentNames_perm.append (h.configurations_perm.map _)).append (h.moduleDecls_perm.map _)

theorem injectable_perm :
    path.readTargets.value.injectable.Perm other.readTargets.value.injectable := by
  simp only [readTargets, Logged.value_bind, Logged.value_pure, Logged.value_mapM, h.readTarget]
  exact (h.decls_perm.map _).filterMap _

theorem providable_perm :
    path.readTargets.value.providable.Perm other.readTargets.value.providable := by
  simp only [readTargets, Logged.value_bind, Logged.value_pure, Logged.value_mapM, h.readTarget]
  exact (h.decls_perm.map _).filterMap _

theorem providedNames_perm : path.providedNames.Perm other.providedNames :=
  h.providable_perm.map _

end

end Rearranges

/-! ## Orders of registration -/

/-- The path on which the classes are registered one after another. -/
def ofEntries (entries : List ClassEntry) : ClassPath :=
  entries.foldl register ∅

theorem table_foldl_register (entries : List ClassEntry) (path : ClassPath) :
    (entries.foldl register path).table =
      (entries.map fun entry => (entry.decl.name, entry)).foldl
        (fun table (name, entry) => table.insert name entry) path.table := by
  induction entries generalizing path with
  | nil => rfl
  | cons entry entries ih => exact ih (path.register entry)

variable {entries others : List ClassEntry}

theorem entries_ofEntries (hnames : (entries.map fun entry => entry.decl.name).Nodup) :
    (ofEntries entries).table.entries = entries.map fun entry => (entry.decl.name, entry) := by
  rw [ofEntries, table_foldl_register]
  refine Table.entries_ofList ?_
  rw [List.map_map]
  exact hnames

theorem find?_table_ofEntries (hnames : (entries.map fun entry => entry.decl.name).Nodup)
    {name : ClassName} {entry : ClassEntry} :
    (ofEntries entries).table.find? name = some entry ↔
      entry ∈ entries ∧ entry.decl.name = name := by
  rw [Table.find?_eq_some_iff, entries_ofEntries hnames, List.mem_map]
  constructor
  · rintro ⟨_, hentry, heq⟩
    cases heq
    exact ⟨hentry, rfl⟩
  · rintro ⟨hentry, rfl⟩
    exact ⟨entry, hentry, rfl⟩

/-- The order in which distinct classes are registered changes nothing but the order of names. -/
theorem rearranges_of_perm (hnames : (entries.map fun entry => entry.decl.name).Nodup)
    (hperm : entries.Perm others) : (ofEntries entries).Rearranges (ofEntries others) := by
  have hothers : (others.map fun entry => entry.decl.name).Nodup := (hperm.map _).nodup hnames
  have hfind : (ofEntries others).table.find? = (ofEntries entries).table.find? := by
    funext name
    refine Option.ext fun entry => ?_
    rw [find?_table_ofEntries hothers, find?_table_ofEntries hnames, hperm.mem_iff]
  constructor
  case find?_eq =>
    funext name
    rw [ClassPath.find?, ClassPath.find?, hfind]
  case isInput_eq =>
    funext name
    rw [ClassPath.isInput, ClassPath.isInput, hfind]
  case registered_perm =>
    rw [registered, registered, Table.keys, Table.keys, entries_ofEntries hnames,
      entries_ofEntries hothers]
    exact (hperm.map _).map _

end ClassPath

end InjectionCompiler
