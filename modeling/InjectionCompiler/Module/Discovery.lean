import InjectionCompiler.Binding.Discovery
import InjectionCompiler.Hosting

/-!
# Finding modules

Modules are read breadth first along their imports, each class once however many imports name it.
Imports of modules are linked when all modules have their ids.
-/

namespace InjectionCompiler

/-! ## Imports as they are declared -/

/-- An accepted import; a module is still known by its class alone. -/
inductive DeclaredImport where
  | module (name : ClassName) (site : ImportSite)
  | contract (target : Id .contract) (site : ImportSite) (lazy : Bool)
  deriving DecidableEq, Repr

def DeclaredImport.module? : DeclaredImport → Option ClassName
  | .module name _ => some name
  | .contract _ _ _ => none

/-- What modules are read from, besides their classes. -/
structure ModuleSources where
  project : String
  hosting : Hosting
  bindings : BindingIndex
  providable : List InjectionTarget
  factories : Arena .factory Factory
  /-- The contract of each contract configuration. -/
  configured : List (ClassName × Id .contract)

namespace ClassPath

def readImportClass (declared : Signature) (element : String) :
    Logged (Option (ClassName × Bool)) := do
  let mustBeClass := Logged.report
    ("Import must be a class: " ++ declared.display ++ " from " ++ element)
  match declared with
  | .applied raw arguments =>
      if raw = Vocabulary.lazy then
        match arguments with
        | .erased (.object name) :: _ => return some (name, true)
        | _ =>
            mustBeClass
            return none
      else
        .report ("Import cannot have a generic type: " ++ declared.display ++ " from " ++ element)
        return none
  | .erased (.object name) => return some (name, false)
  | .erased _ =>
      mustBeClass
      return none
  | _ =>
      .report ("Import cannot have a generic type: " ++ declared.display ++ " from " ++ element)
      return none

/-- An import of a member.  A member marked as a contract imports its type as a contract; any
other type has to be a module. -/
def readImport (path : ClassPath) (project : String) (annotations : List Annotation)
    (declared : Signature) (element : String) (site : ImportSite) :
    BookWork (Option DeclaredImport) := do
  let some (name, lazy) ← readImportClass declared element | return none
  if isAnnotated annotations Vocabulary.contract then
    let id ← path.readContract project name
    return some (.contract id site lazy)
  if lazy then
    Logged.report ("Imported module with type: " ++ name.display ++ " cannot be wrapped in: " ++
      Vocabulary.lazy.display)
  let some decl := path.find? name | throw (.classNotFound name)
  if !decl.isAnnotated Vocabulary.moduleMark then
    Logged.report ("Imported module " ++ name.display ++ " isn't annotated with @Module")
    return none
  return some (.module name site)

def readMethodImport (path : ClassPath) (project : String) (owner : ClassName)
    (method : MethodDecl) : BookWork (Option DeclaredImport) := do
  let element := memberName owner method.name
  if method.returns.erasure.isVoid then
    Logged.report ("Import must be a class: " ++ method.returns.display ++ " from " ++ element)
    return none
  if !method.parameters.isEmpty then
    Logged.report ("Import method cannot have parameters: " ++ element)
    return none
  Logged.debug ("  Import method: " ++ element) []
  path.readImport project method.annotations method.returns element (.method owner method.name)

def readFieldImport (path : ClassPath) (project : String) (owner : ClassName)
    (field : FieldDecl) : BookWork (Option DeclaredImport) := do
  let element := memberName owner field.name
  Logged.debug ("  Import field: " ++ element) []
  path.readImport project field.annotations field.type element (.field owner field.name)

def readAnnotationImport (importer importee : ClassName) : Logged DeclaredImport := do
  let site := ImportSite.importedBy importer importee
  .debug ("  Import annotation: " ++ site.display) []
  return .module importee site

def readImports (path : ClassPath) (sources : ModuleSources) (decl : ClassDecl) :
    BookWork (List DeclaredImport) := do
  let methods := decl.plainMethods.filter (·.isAnnotated Vocabulary.importMark)
  let ofMethods ← methods.mapM (path.readMethodImport sources.project decl.name)
  let fields := decl.fields.filter (·.isAnnotated Vocabulary.importMark)
  let ofFields ← fields.mapM (path.readFieldImport sources.project decl.name)
  let importees := hostedBy sources.hosting.importedBy decl.name
  let ofImportees ← importees.mapM fun importee => readAnnotationImport decl.name importee
  return ofMethods.filterMap id ++ ofFields.filterMap id ++ ofImportees

/-! ## Provision points -/

def readConstructorPoint (path : ClassPath) (sources : ModuleSources) (name : ClassName) :
    Logged (Option ProvisionPoint) := do
  let some target := sources.providable.find? fun target => target.name = name | return none
  let some decl := path.find? name | return none
  let element := name.display
  .debug ("  Constructor: " ++ element) []
  let qualifier ← path.readQualifier decl.annotations element
  let scope ← path.readScope decl.annotations element
  return some ⟨name, ⟨.ofClass name, qualifier⟩, scope, .constructor target.constructorInjectees⟩

def readMethodProvision (path : ClassPath) (owner : ClassName) (method : MethodDecl) :
    Logged (Option ProvisionPoint) := do
  let element := memberName owner method.name
  if method.returns.erasure.isVoid then
    .report ("Provider returns void: " ++ element)
    return none
  .debug ("  Method: " ++ element) []
  let qualifier ← path.readQualifier method.annotations element
  let scope ← path.readScope method.annotations element
  let injectees ← path.readParameters owner method
  return some ⟨owner, ⟨method.returns, qualifier⟩, scope, .method method.name injectees⟩

def readFieldProvision (path : ClassPath) (owner : ClassName) (field : FieldDecl) :
    Logged ProvisionPoint := do
  let element := memberName owner field.name
  .debug ("  Field: " ++ element) []
  let qualifier ← path.readQualifier field.annotations element
  let scope ← path.readScope field.annotations element
  return ⟨owner, ⟨field.type, qualifier⟩, scope, .field field.name⟩

/-- The sources of a container: hosted constructors, then providing methods, then providing
fields. -/
def readProvisionPoints (path : ClassPath) (sources : ModuleSources) (decl : ClassDecl) :
    Logged (List ProvisionPoint) := do
  let constructors ← (hostedBy sources.hosting.targets decl.name).mapM
    (path.readConstructorPoint sources)
  let provided := fun (isStatic : Bool) (annotations : List Annotation) =>
    !isStatic && isAnnotated annotations Vocabulary.provide
  let methods ← (decl.plainMethods.filter fun method =>
      provided method.isStatic method.annotations).mapM (path.readMethodProvision decl.name)
  let fields ← (decl.fields.filter fun field =>
      provided field.isStatic field.annotations).mapM (path.readFieldProvision decl.name)
  return constructors.filterMap id ++ methods.filterMap id ++ fields

/-! ## Modules -/

def moduleKeys (sources : ModuleSources) (book : ContractBook) (points : List ProvisionPoint)
    (factories : List (Id .factory)) (contracts : List (Id .contract)) : List Key :=
  points.map ProvisionPoint.key ++
    (factories.filterMap sources.factories.get?).map Factory.key ++
    (contracts.filterMap book.contracts.get?).map Contract.key

def readModule (path : ClassPath) (sources : ModuleSources) (decl : ClassDecl) :
    BookWork (Module × List DeclaredImport) := do
  if !decl.typeParameters.isEmpty then
    Logged.report ("Module cannot have a type parameters: " ++ decl.name.display)
    return (.empty decl.name, [])
  Logged.debug ("Module: " ++ decl.name.display) []
  let imports ← path.readImports sources decl
  let points ← path.readProvisionPoints sources decl
  let factories := hostedBy sources.hosting.factories decl.name
  let contracts := hostedBy sources.hosting.contracts decl.name ++
    (sources.configured.lookup decl.name).toList
  let keys := moduleKeys sources (← get) points factories contracts
  let module : Module := {
    name := decl.name
    imports := []
    provisionPoints := points
    bindings := firsts id (keys.flatMap sources.bindings.ofImplementation)
    factories := factories
    contracts := contracts }
  return (module, imports)

/-- Modules that are read, each with its unlinked imports. -/
abbrev UnlinkedModules := Table ClassName (Module × List DeclaredImport)

theorem remaining_keys_insert_lt {path : ClassPath} {known : UnlinkedModules} {name : ClassName}
    {decl : ClassDecl} {read : Module × List DeclaredImport} (hdecl : path.find? name = some decl)
    (hknown : name ∉ known.keys) :
    SearchSpace.remaining path.registered (known.insert name read).keys <
      SearchSpace.remaining path.registered known.keys := by
  rw [Table.keys_insert, if_neg hknown]
  exact SearchSpace.remaining_append_singleton (mem_registered_of_find? hdecl) hknown

theorem not_mem_keys_of_dropWhile {known : UnlinkedModules} {queue rest : List ClassName}
    {name : ClassName} (h : queue.dropWhile (· ∈ known.keys) = name :: rest) :
    name ∉ known.keys := by
  have hhead := List.head?_dropWhile_not (· ∈ known.keys) queue
  simpa [h] using hhead

/-- Takes the classes of the queue in turn, without those that are known; a class that is new is
read, and the modules it imports are queued. -/
def readModulesFrom (path : ClassPath) (sources : ModuleSources) (known : UnlinkedModules)
    (queue : List ClassName) : BookWork UnlinkedModules :=
  match _ : queue.dropWhile (· ∈ known.keys) with
  | [] => return known
  | name :: rest =>
      match _ : path.find? name with
      | none => throw (.classNotFound name)
      | some decl => do
          let read ← path.readModule sources decl
          path.readModulesFrom sources (known.insert name read)
            (rest ++ read.2.filterMap DeclaredImport.module?)
  termination_by SearchSpace.remaining path.registered known.keys
  decreasing_by exact remaining_keys_insert_lt ‹_› (not_mem_keys_of_dropWhile ‹_›)

def linkImport (known : UnlinkedModules) : DeclaredImport → Option Import
  | .module name site => (known.position? name).map fun place => .module ⟨place⟩ site
  | .contract target site lazy => some (.contract target site lazy)

def linkModules (known : UnlinkedModules) : Arena .module Module :=
  ⟨known.mapValues fun (module, imports) =>
    { module with imports := imports.filterMap (linkImport known) }⟩

/-- The modules of all roots and everything these import. -/
def readModules (path : ClassPath) (sources : ModuleSources) (roots : List ClassName) :
    BookWork (Arena .module Module) := do
  let known ← path.readModulesFrom sources ∅ roots
  return linkModules known

end ClassPath

end InjectionCompiler
