import InjectionCompiler.Proofs.Accounting

/-!
# Declared imports

What a container imports is declared by its methods, by its fields, and by the modules that name it
as their importer.  The declarations are read off the classes alone; reading a container finds just
these imports, in the order in which they are declared.
-/

namespace InjectionCompiler

/-! ## Imports by name -/

/-- An import as it is declared.  A wrapped contract is made on first use; a wrapped module is a
fault, and is imported all the same. -/
inductive NamedImport where
  | module (name : ClassName) (site : ImportSite) (wrapped : Bool)
  | contract (name : ClassName) (site : ImportSite) (wrapped : Bool)
  deriving DecidableEq, Repr

namespace NamedImport

def isWrappedModule : NamedImport → Bool
  | .module _ _ wrapped => wrapped
  | .contract _ _ _ => false

end NamedImport

/-- The class that a member of the given type imports, and whether it is wrapped. -/
def importClass? : Signature → Option (ClassName × Bool)
  | .erased (.object name) => some (name, false)
  | .applied raw (.erased (.object name) :: _) =>
      if raw = Vocabulary.lazy then some (name, true) else none
  | _ => none

namespace ClassPath

/-- The import that a member declares by its annotations and its type, unless it fails a check. -/
def memberImport? (path : ClassPath) (annotations : List Annotation) (type : Signature)
    (site : ImportSite) : Option NamedImport :=
  match importClass? type with
  | none => none
  | some (name, wrapped) =>
      if isAnnotated annotations Vocabulary.contract then some (.contract name site wrapped)
      else if path.bears name Vocabulary.moduleMark then some (.module name site wrapped)
      else none

def methodImport? (path : ClassPath) (owner : ClassName) (method : MethodDecl) :
    Option NamedImport :=
  if method.returns.erasure.isVoid || !method.parameters.isEmpty then none
  else path.memberImport? method.annotations method.returns (.method owner method.name)

def fieldImport? (path : ClassPath) (owner : ClassName) (field : FieldDecl) : Option NamedImport :=
  path.memberImport? field.annotations field.type (.field owner field.name)

/-- The container that an entry of a list names, where it may import or host the class. -/
def container? (path : ClassPath) (hosted : ClassName) : Literal → Option ClassName
  | .type (.object container) =>
      if path.isContainer container && !path.isForeignHost hosted container then some container
      else none
  | _ => none

/-- The accepted entries of a list of containers. -/
def containers (path : ClassPath) (hosted : ClassName) (entries : Option (List Literal)) :
    List ClassName :=
  (entries.getD []).filterMap (path.container? hosted)

def importers (path : ClassPath) (decl : ClassDecl) : List ClassName :=
  path.containers decl.name (annotationList? decl.annotations Vocabulary.importedBy)

def moduleDecls (path : ClassPath) : List ClassDecl :=
  path.decls.filter (·.isAnnotated Vocabulary.moduleMark)

/-- The imports that modules declare of themselves: the importer and the module. -/
def importedBy (path : ClassPath) : List (ClassName × ClassName) :=
  path.moduleDecls.flatMap fun decl =>
    (path.importers decl).map fun importer => (importer, decl.name)

def importingMethods (decl : ClassDecl) : List MethodDecl :=
  decl.plainMethods.filter (·.isAnnotated Vocabulary.importMark)

def importingFields (decl : ClassDecl) : List FieldDecl :=
  decl.fields.filter (·.isAnnotated Vocabulary.importMark)

/-- The declared imports of a container: methods, fields, then what the importees declare.  A class
with type parameters imports nothing. -/
def declaredImports (path : ClassPath) (decl : ClassDecl) : List NamedImport :=
  if decl.typeParameters.isEmpty then
    (importingMethods decl).filterMap (path.methodImport? decl.name) ++
      (importingFields decl).filterMap (path.fieldImport? decl.name) ++
      (hostedBy path.importedBy decl.name).map fun importee =>
        .module importee (.importedBy decl.name importee) false
  else []

/-! ## Every imported module is a module -/

variable {path : ClassPath}

theorem exists_of_any {α : Type} {found : Option α} {test : α → Bool} (h : found.any test) :
    ∃ x, found = some x ∧ test x := by
  cases found with
  | none => cases h
  | some x => exact ⟨x, rfl, h⟩

theorem find?_of_mem_decls {decl : ClassDecl} (h : decl ∈ path.decls) :
    path.find? decl.name = some decl := by
  obtain ⟨name, -, hdecl⟩ := List.mem_filterMap.1 h
  rw [name_of_find? hdecl]
  exact hdecl

theorem mem_names_iff {name : ClassName} : name ∈ path.names ↔ name ∈ path.registered := by
  simp only [names, List.mem_append, List.mem_filter, ← and_or_left]
  cases path.isInput name <;> simp

theorem mem_decls_of_find? {name : ClassName} {decl : ClassDecl} (h : path.find? name = some decl) :
    decl ∈ path.decls :=
  List.mem_filterMap.2 ⟨name, mem_names_iff.2 (mem_registered_of_find? h), h⟩

theorem nodup_names (path : ClassPath) : path.names.Nodup := by
  have hregistered : path.registered.Nodup := path.table.distinct
  refine List.nodup_append.2 ⟨hregistered.filter _, hregistered.filter _, ?_⟩
  rintro name hinput _ hcompiled rfl
  simp only [List.mem_filter, Bool.not_eq_true'] at hinput hcompiled
  exact Bool.noConfusion (hinput.2.symm.trans hcompiled.2)

theorem nodup_decls (path : ClassPath) : (path.decls.map ClassDecl.name).Nodup := by
  have hsublist : (path.decls.map ClassDecl.name).Sublist (path.names.map id) :=
    map_filterMap_sublist (fun _ _ => name_of_find?) path.names
  rw [List.map_id] at hsublist
  exact path.nodup_names.sublist hsublist

theorem mem_moduleDecls_of_memberImport? {annotations : List Annotation} {type : Signature}
    {place site : ImportSite} {name : ClassName} {wrapped : Bool}
    (h : path.memberImport? annotations type place = some (.module name site wrapped)) :
    ∃ decl ∈ path.moduleDecls, decl.name = name := by
  unfold memberImport? at h
  split at h
  · cases h
  · split at h
    · cases h
    · split at h
      · next hbears =>
          cases h
          obtain ⟨decl, hdecl, hmark⟩ := exists_of_any hbears
          exact ⟨decl, List.mem_filter.2 ⟨mem_decls_of_find? hdecl, hmark⟩, name_of_find? hdecl⟩
      · cases h

theorem mem_moduleDecls_of_mem_declaredImports {decl : ClassDecl} {name : ClassName}
    {site : ImportSite} {wrapped : Bool}
    (h : .module name site wrapped ∈ path.declaredImports decl) :
    ∃ module ∈ path.moduleDecls, module.name = name := by
  unfold declaredImports at h
  split at h
  · rcases List.mem_append.1 h with h | h
    · rcases List.mem_append.1 h with h | h
      · obtain ⟨method, -, himport⟩ := List.mem_filterMap.1 h
        unfold methodImport? at himport
        split at himport
        · cases himport
        · exact mem_moduleDecls_of_memberImport? himport
      · obtain ⟨field, -, himport⟩ := List.mem_filterMap.1 h
        exact mem_moduleDecls_of_memberImport? himport
    · obtain ⟨importee, himportee, heq⟩ := List.mem_map.1 h
      cases heq
      obtain ⟨module, hmodule, hentry⟩ := List.mem_flatMap.1 (mem_of_mem_hostedBy himportee)
      obtain ⟨importer, -, heq⟩ := List.mem_map.1 hentry
      cases heq
      exact ⟨module, hmodule, rfl⟩
  · cases h

end ClassPath

/-! ## Reading imports -/

/-- The import that was read is the one that is declared; a contract stands under its id. -/
inductive ContractBook.Denotes (book : ContractBook) : NamedImport → DeclaredImport → Prop where
  | module (name : ClassName) (site : ImportSite) (wrapped : Bool) :
      Denotes book (.module name site wrapped) (.module name site)
  | contract {name : ClassName} {id : Id .contract} (site : ImportSite) (wrapped : Bool)
      (hname : book.contracts.nameOf? id = some name) :
      Denotes book (.contract name site wrapped) (.contract id site wrapped)

theorem ContractBook.Extends.nameOf? {before after : ContractBook} (h : before.Extends after)
    {id : Id .contract} {name : ClassName} (hname : before.contracts.nameOf? id = some name) :
    after.contracts.nameOf? id = some name := by
  obtain ⟨later, hlater⟩ := h
  rw [Arena.nameOf?, Table.keys] at hname ⊢
  rw [← hlater, List.map_append, List.getElem?_append_left (List.getElem?_eq_some_iff.1 hname).1]
  exact hname

theorem ContractBook.Denotes.mono {before after : ContractBook} (h : before.Extends after)
    {declared : NamedImport} {read : DeclaredImport} (hdenotes : before.Denotes declared read) :
    after.Denotes declared read := by
  cases hdenotes with
  | module name site wrapped => exact .module name site wrapped
  | contract site wrapped hname => exact .contract site wrapped (h.nameOf? hname)

namespace Bookkeeping

def asking (keeping : Bookkeeping) (name : ClassName) : Toll :=
  ⟨keeping.Readable name, 0, {name}⟩

def Looks (keeping : Bookkeeping) (path : ClassPath) (project : String) : Prop :=
  ∀ name book, keeping.Sound book →
    keeping.Accounts book (keeping.asking name)
      (fun after id => after.contracts.nameOf? id = some name) (path.readContract project name)

end Bookkeeping

namespace ClassPath

/-! ## Tolls of imports -/

def importedToll (path : ClassPath) (name : ClassName) : Toll :=
  ⟨(path.find? name).isSome, (!path.bears name Vocabulary.moduleMark).toNat, ∅⟩

def memberToll (path : ClassPath) (keeping : Bookkeeping) (annotations : List Annotation)
    (type : Signature) : Toll :=
  match importClass? type with
  | none => .reporting 1
  | some (name, wrapped) =>
      if isAnnotated annotations Vocabulary.contract then keeping.asking name
      else .reporting wrapped.toNat + path.importedToll name

def methodToll (path : ClassPath) (keeping : Bookkeeping) (method : MethodDecl) : Toll :=
  if method.returns.erasure.isVoid || !method.parameters.isEmpty then .reporting 1
  else path.memberToll keeping method.annotations method.returns

def fieldToll (path : ClassPath) (keeping : Bookkeeping) (field : FieldDecl) : Toll :=
  path.memberToll keeping field.annotations field.type

def importsToll (path : ClassPath) (keeping : Bookkeeping) (decl : ClassDecl) : Toll :=
  ((importingMethods decl).map (path.methodToll keeping)).sum +
    ((importingFields decl).map (path.fieldToll keeping)).sum

variable {path : ClassPath} {keeping : Bookkeeping} {project : String}

theorem importClass?_applied {raw : ClassName} (h : raw ≠ Vocabulary.lazy)
    (arguments : List Signature) : importClass? (.applied raw arguments) = none := by
  unfold importClass?
  split
  · next heq => cases heq
  · next heq =>
      cases heq
      rw [if_neg h]
  · rfl

theorem readImportClass_spec (type : Signature) (element : String) :
    (readImportClass type element).value = importClass? type ∧
      (readImportClass type element).faults.length =
        (importClass? type).elim 1 fun _ => 0 := by
  cases type with
  | erased type => cases type <;> exact ⟨rfl, rfl⟩
  | applied raw arguments =>
      by_cases hraw : raw = Vocabulary.lazy
      · subst hraw
        cases arguments with
        | nil => exact ⟨rfl, rfl⟩
        | cons argument rest =>
            cases argument with
            | erased type => cases type <;> exact ⟨rfl, rfl⟩
            | _ => exact ⟨rfl, rfl⟩
      · rw [importClass?_applied hraw]
        simp only [readImportClass, hraw, if_false]
        exact ⟨rfl, rfl⟩
  | _ => exact ⟨rfl, rfl⟩

private theorem accounts_modulePart (name : ClassName) (site : ImportSite) (wrapped : Bool)
    {book : ContractBook} (hbook : keeping.Sound book) :
    keeping.Accounts book (path.importedToll name)
      (fun after => Option.Rel after.Denotes
        (if path.bears name Vocabulary.moduleMark then some (.module name site wrapped) else none))
      (do
        let some decl := path.find? name | throw (.classNotFound name)
        if !decl.isAnnotated Vocabulary.moduleMark then
          Logged.report ("Imported module " ++ name.display ++ " isn't annotated with @Module")
          return none
        return some (.module name site) : BookWork (Option DeclaredImport)) := by
  cases hdecl : path.find? name with
  | none =>
      have htoll : path.importedToll name = ⟨False, 1, ∅⟩ := by simp [importedToll, bears, hdecl]
      rw [htoll]
      exact .throw name 1 ∅
  | some decl =>
      cases hmark : decl.isAnnotated Vocabulary.moduleMark with
      | false =>
          have htoll : path.importedToll name = .reporting 1 + 0 := by
            simp [importedToll, bears, hdecl, hmark, Toll.reporting]
          rw [htoll, if_neg (by simp [bears, hdecl, hmark])]
          simp only [hmark]
          exact .bindReport hbook (.pure hbook Option.Rel.none)
      | true =>
          have htoll : path.importedToll name = 0 := by
            simp [importedToll, bears, hdecl, hmark]; rfl
          rw [htoll, if_pos (by simp [bears, hdecl, hmark])]
          simp only [hmark]
          exact .pure hbook (Option.Rel.some (ContractBook.Denotes.module name site wrapped))

theorem accounts_readImport (hlooks : keeping.Looks path project) (annotations : List Annotation)
    (type : Signature) (element : String) (site : ImportSite) {book : ContractBook}
    (hbook : keeping.Sound book) :
    keeping.Accounts book (path.memberToll keeping annotations type)
      (fun after => Option.Rel after.Denotes (path.memberImport? annotations type site))
      (path.readImport project annotations type element site) := by
  obtain ⟨hclass, hfaults⟩ := readImportClass_spec type element
  unfold readImport memberImport? memberToll
  cases hname : importClass? type with
  | none =>
      rw [hname] at hclass hfaults
      rw [← add_zero (Toll.reporting 1)]
      refine .bindLogged hfaults hbook ?_
      rw [hclass]
      exact .pure hbook Option.Rel.none
  | some named =>
      obtain ⟨name, wrapped⟩ := named
      rw [hname] at hclass hfaults
      refine .bindQuiet hfaults hbook ?_
      rw [hclass]
      dsimp only
      split
      · rw [← add_zero (keeping.asking name)]
        refine (hlooks name book hbook).bind fun id after _ hafter hid => ?_
        exact .pure hafter.sound (Option.Rel.some (.contract site wrapped hid))
      · cases wrapped with
        | true => exact .bindReport hbook (accounts_modulePart name site true hbook)
        | false =>
            rw [show Toll.reporting false.toNat = 0 from rfl, zero_add]
            exact accounts_modulePart name site false hbook

theorem accounts_readMethodImport (hlooks : keeping.Looks path project) (owner : ClassName)
    (method : MethodDecl) {book : ContractBook} (hbook : keeping.Sound book) :
    keeping.Accounts book (path.methodToll keeping method)
      (fun after => Option.Rel after.Denotes (path.methodImport? owner method))
      (path.readMethodImport project owner method) := by
  unfold readMethodImport methodToll methodImport?
  dsimp only
  cases hvoid : method.returns.erasure.isVoid with
  | true =>
      rw [← add_zero (Toll.reporting 1)]
      exact .bindReport hbook (.pure hbook Option.Rel.none)
  | false =>
      cases hparameters : method.parameters.isEmpty with
      | false =>
          rw [← add_zero (Toll.reporting 1)]
          exact .bindReport hbook (.pure hbook Option.Rel.none)
      | true => exact .bindQuiet rfl hbook (accounts_readImport hlooks _ _ _ _ hbook)

theorem accounts_readFieldImport (hlooks : keeping.Looks path project) (owner : ClassName)
    (field : FieldDecl) {book : ContractBook} (hbook : keeping.Sound book) :
    keeping.Accounts book (path.fieldToll keeping field)
      (fun after => Option.Rel after.Denotes (path.fieldImport? owner field))
      (path.readFieldImport project owner field) :=
  .bindQuiet rfl hbook (accounts_readImport hlooks _ _ _ _ hbook)

theorem accounts_importingMembers {α : Type} {act : α → BookWork (Option DeclaredImport)}
    {toll : α → Toll} {declared : α → Option NamedImport}
    (hact : ∀ x book, keeping.Sound book →
      keeping.Accounts book (toll x) (fun after => Option.Rel after.Denotes (declared x)) (act x))
    (xs : List α) {book : ContractBook} (hbook : keeping.Sound book) :
    keeping.Accounts book (xs.map toll).sum
      (fun after read => List.Forall₂ after.Denotes (xs.filterMap declared) (read.filterMap id))
      (xs.mapM act) := by
  have hmono : ∀ (a b : ContractBook) x read, a.Extends b →
      Option.Rel a.Denotes (declared x) read → Option.Rel b.Denotes (declared x) read :=
    fun _ _ _ _ hextends => rel_option_imp fun _ _ hdenotes => hdenotes.mono hextends
  have hread := Bookkeeping.Accounts.mapM hmono xs (fun x _ => hact x) hbook
  exact hread.mono fun after read _ hall => List.rel_filterMap (fun _ _ hrel => hrel) hall

theorem accounts_readImports {sources : ModuleSources}
    (hlooks : keeping.Looks path sources.project)
    (himportedBy : sources.hosting.importedBy = path.importedBy) {decl : ClassDecl}
    (hplain : decl.typeParameters.isEmpty) {book : ContractBook} (hbook : keeping.Sound book) :
    keeping.Accounts book (path.importsToll keeping decl)
      (fun after => List.Forall₂ after.Denotes (path.declaredImports decl))
      (path.readImports sources decl) := by
  have hmethods := accounts_importingMembers fun method _ hbook =>
    accounts_readMethodImport hlooks decl.name method hbook
  have hfields := accounts_importingMembers fun field _ hbook =>
    accounts_readFieldImport hlooks decl.name field hbook
  have hquiet : ((hostedBy path.importedBy decl.name).mapM
      (readAnnotationImport decl.name)).faults.length = 0 := by
    rw [Logged.faults_mapM]
    exact List.length_eq_zero_iff.2 (List.flatMap_eq_nil_iff.2 fun _ _ => rfl)
  unfold readImports declaredImports importsToll
  rw [if_pos hplain, himportedBy]
  refine (hmethods _ hbook).bind fun ofMethods b _ hb hofMethods => ?_
  rw [← add_zero ((importingFields decl).map (path.fieldToll keeping)).sum]
  refine (hfields _ hb.sound).bind fun ofFields c _ hc hofFields => ?_
  dsimp only
  rw [mapM_liftM (readAnnotationImport decl.name)]
  refine .bindQuiet hquiet hc.sound (.pure hc.sound ?_)
  refine List.rel_append (List.rel_append ?_ hofFields) ?_
  · exact hofMethods.imp fun _ _ hdenotes => hdenotes.mono hc.extended
  · rw [Logged.value_mapM, List.forall₂_map_left_iff, List.forall₂_map_right_iff]
    exact List.forall₂_same.2 fun importee _ => .module importee _ false

end ClassPath

end InjectionCompiler
