import InjectionCompiler.Proofs.MissingClasses
import InjectionCompiler.Proofs.Reading

/-!
# Marked classes and roots

Factories and contracts are marked as such, and so are components and modules; a configuration is
known by its super class.  What they are read as depends on no more than the classes themselves.
-/

namespace InjectionCompiler

def ContractBook.Serves (book : ContractBook) (declared : ClassName × ClassName)
    (read : ClassName × Id .contract) : Prop :=
  read.1 = declared.1 ∧ book.contracts.nameOf? read.2 = some declared.2

theorem ContractBook.Serves.mono {before after : ContractBook} (h : before.Extends after)
    {declared : ClassName × ClassName} {read : ClassName × Id .contract}
    (hserves : before.Serves declared read) : after.Serves declared read :=
  ⟨hserves.1, h.nameOf? hserves.2⟩

namespace ClassPath

variable {path : ClassPath} {keeping : Bookkeeping} {project : String}

/-! ## Factories -/

def factoryOf? (path : ClassPath) (decl : ClassDecl) : Option Factory :=
  if decl.isAnnotated Vocabulary.factory then (path.readFactory decl).result.toOption else none

def factories (path : ClassPath) : List Factory :=
  path.decls.filterMap path.factoryOf?

theorem name_of_factoryOf? {decl : ClassDecl} {factory : Factory}
    (h : path.factoryOf? decl = some factory) : factory.name = decl.name := by
  unfold factoryOf? at h
  split at h
  · cases hresult : (path.readFactory decl).result with
    | error failure => simp [hresult, Except.toOption] at h
    | ok read =>
        simp only [hresult, Except.toOption, Option.some.injEq] at h
        subst h
        have hends : Ends (path.readFactory decl) () read () := hresult
        simp only [readFactory, ends_bind, ends_pure] at hends
        obtain ⟨-, _, -, _, _, -, _, _, -, rfl, -⟩ := hends
        rfl
  · cases h

/-! ## Marked classes -/

def factoryToll (path : ClassPath) (decl : ClassDecl) : Toll :=
  if decl.isAnnotated Vocabulary.factory then (path.readFactory decl).toll else 0

def contractToll (keeping : Bookkeeping) (decl : ClassDecl) : Toll :=
  if decl.isAnnotated Vocabulary.contract then keeping.asking decl.name else 0

def markedToll (path : ClassPath) (keeping : Bookkeeping) (decl : ClassDecl) : Toll :=
  path.factoryToll decl + contractToll keeping decl

def ReadsFactory (path : ClassPath) (decl : ClassDecl) (read : Option Factory) : Prop :=
  read = path.factoryOf? decl ∧ read.isSome = decl.isAnnotated Vocabulary.factory

private theorem accounts_contractPart (hlooks : keeping.Looks path project) (decl : ClassDecl)
    (factory : Option Factory) {book : ContractBook} (hbook : keeping.Sound book) :
    keeping.Accounts book (contractToll keeping decl) (fun _ read => read = factory) (do
      if decl.isAnnotated Vocabulary.contract then
        let _ ← path.readContract project decl.name
      return factory : BookWork (Option Factory)) := by
  unfold contractToll
  dsimp only
  split
  · rw [← add_zero (keeping.asking _)]
    exact (hlooks _ _ hbook).bind fun _ _ _ hafter _ => .pure hafter.sound rfl
  · exact .pure hbook rfl

theorem accounts_readMarked (hlooks : keeping.Looks path project) (decl : ClassDecl)
    {book : ContractBook} (hbook : keeping.Sound book) :
    keeping.Accounts book (path.markedToll keeping decl)
      (fun _ => path.ReadsFactory decl) (path.readMarked project decl) := by
  unfold readMarked markedToll factoryToll ReadsFactory factoryOf?
  dsimp only
  split
  · next hmark =>
      have hfactory : keeping.Accounts book (path.readFactory decl).toll
          (fun _ factory => (path.readFactory decl).result = .ok factory)
          (liftM (path.readFactory decl)) :=
        .work (.of_seeks (misses_readFactory decl).seeks) rfl hbook fun _ => id
      refine hfactory.bind fun factory between _ hbetween hresult => ?_
      rw [pure_bind]
      refine (accounts_contractPart hlooks decl _ hbetween.sound).mono fun _ read _ hread => ?_
      rw [hread, hresult, hmark]
      exact ⟨rfl, rfl⟩
  · next hmark =>
      rw [pure_bind, zero_add]
      refine (accounts_contractPart hlooks decl none hbook).mono fun _ read _ hread => ?_
      rw [hread, Bool.eq_false_iff.2 hmark]
      exact ⟨rfl, rfl⟩

theorem accounts_readMarkedClasses (hlooks : keeping.Looks path project)
    {book : ContractBook} (hbook : keeping.Sound book) :
    keeping.Accounts book (path.decls.map (path.markedToll keeping)).sum
      (fun _ marked => marked.factories.table.entries = path.factories.map (fun f => (f.name, f)) ∧
        marked.modules = path.moduleDecls.map ClassDecl.name ∧
        ∀ decl ∈ path.decls, (path.factoryOf? decl).isSome = decl.isAnnotated Vocabulary.factory)
      (path.readMarkedClasses project) := by
  have hread := Bookkeeping.Accounts.mapM (fun _ _ _ _ _ => id) path.decls
    (fun decl _ book hbook => accounts_readMarked hlooks decl hbook) hbook
  unfold readMarkedClasses
  rw [← add_zero (List.sum _)]
  refine hread.bind fun read between _ hbetween hall => .pure hbetween.sound ⟨?_, rfl, ?_⟩
  · have hnames : (path.factories.map Factory.name).Sublist (path.decls.map ClassDecl.name) :=
      map_filterMap_sublist (fun _ _ => name_of_factoryOf?) path.decls
    dsimp only
    rw [eq_map_of_forall₂ (hall.imp fun _ _ hread => hread.1), List.filterMap_map,
      Function.id_comp, Table.entries_ofList]
    · rfl
    · rw [List.map_map]
      exact path.nodup_decls.sublist hnames
  · intro decl hdecl
    obtain ⟨factory, -, rfl, hsome⟩ := exists_right_of_forall₂ hall hdecl
    exact hsome

/-! ## Components and configurations -/

def component? (decl : ClassDecl) : Option ClassName :=
  if decl.isAnnotated Vocabulary.component && decl.typeParameters.isEmpty then some decl.name
  else none

/-- The contract that stands as the type argument of a configuration's super class. -/
def configuredContract? (decl : ClassDecl) : Option ClassName :=
  match decl.genericSuper with
  | some (.applied raw [argument]) =>
      if raw = Vocabulary.contractConfiguration then argument.asClass? else none
  | _ => none

/-- An accepted configuration with the contract that it serves. -/
def configuration? (decl : ClassDecl) : Option (ClassName × ClassName) :=
  if decl.isConfiguration && decl.typeParameters.isEmpty then
    (configuredContract? decl).map fun contract => (decl.name, contract)
  else none

def componentNames (path : ClassPath) : List ClassName :=
  path.decls.filterMap component?

def configurations (path : ClassPath) : List (ClassName × ClassName) :=
  path.decls.filterMap configuration?

/-- The containers that are read whether or not anything imports them. -/
def rootNames (path : ClassPath) : List ClassName :=
  path.componentNames ++ path.configurations.map Prod.fst ++ path.moduleDecls.map ClassDecl.name

def componentToll (decl : ClassDecl) : Toll :=
  .reporting (decl.isAnnotated Vocabulary.component && !decl.typeParameters.isEmpty).toNat

def configurationToll (keeping : Bookkeeping) (decl : ClassDecl) : Toll :=
  if decl.isConfiguration then
    if decl.typeParameters.isEmpty then
      match configuredContract? decl with
      | none => .reporting 1
      | some contract => keeping.asking contract
    else .reporting 1
  else 0

def rootToll (keeping : Bookkeeping) (decl : ClassDecl) : Toll :=
  componentToll decl + configurationToll keeping decl

theorem readComponent_spec (decl : ClassDecl) :
    (readComponent decl).value = component? decl ∧
      (readComponent decl).faults.length =
        (decl.isAnnotated Vocabulary.component && !decl.typeParameters.isEmpty).toNat := by
  unfold readComponent component?
  cases decl.isAnnotated Vocabulary.component <;> cases decl.typeParameters.isEmpty <;>
    exact ⟨rfl, rfl⟩

theorem readConfiguredContract_spec (decl : ClassDecl) :
    (readConfiguredContract decl).value = configuredContract? decl ∧
      (readConfiguredContract decl).faults.length = (configuredContract? decl).isNone.toNat := by
  cases hsuper : decl.genericSuper with
  | none =>
      simp only [readConfiguredContract, configuredContract?, hsuper]
      exact ⟨rfl, rfl⟩
  | some base =>
      simp only [readConfiguredContract, configuredContract?, hsuper]
      cases base with
      | applied raw arguments =>
          cases arguments with
          | nil => exact ⟨rfl, rfl⟩
          | cons argument rest =>
              cases rest with
              | cons _ _ => exact ⟨rfl, rfl⟩
              | nil =>
                  by_cases hraw : raw = Vocabulary.contractConfiguration
                  · subst hraw
                    cases argument with
                    | erased type => cases type <;> exact ⟨rfl, rfl⟩
                    | _ => exact ⟨rfl, rfl⟩
                  · simp only [hraw, ne_eq, not_false_eq_true, if_true, if_false]
                    exact ⟨rfl, rfl⟩
      | _ => exact ⟨rfl, rfl⟩

theorem accounts_readConfiguration (hlooks : keeping.Looks path project) (decl : ClassDecl)
    {book : ContractBook} (hbook : keeping.Sound book) :
    keeping.Accounts book (configurationToll keeping decl)
      (fun after => Option.Rel after.Serves (configuration? decl))
      (path.readConfiguration project decl) := by
  unfold readConfiguration configurationToll configuration?
  cases decl.isConfiguration with
  | false => exact .pure hbook Option.Rel.none
  | true =>
      cases decl.typeParameters.isEmpty with
      | false =>
          rw [← add_zero (Toll.reporting 1)]
          exact .bindReport hbook (.pure hbook Option.Rel.none)
      | true =>
          obtain ⟨hvalue, hfaults⟩ := readConfiguredContract_spec decl
          cases hcontract : configuredContract? decl with
          | none =>
              rw [hcontract] at hvalue hfaults
              rw [← add_zero (Toll.reporting 1)]
              refine .bindLogged hfaults hbook ?_
              rw [hvalue]
              exact .pure hbook Option.Rel.none
          | some contract =>
              rw [hcontract] at hvalue hfaults
              refine .bindQuiet hfaults hbook ?_
              rw [hvalue]
              refine .bindQuiet rfl hbook ?_
              dsimp only
              rw [← add_zero (keeping.asking contract)]
              refine (hlooks contract book hbook).bind fun id after _ hafter hid => ?_
              exact .pure hafter.sound (Option.Rel.some ⟨rfl, hid⟩)

theorem accounts_readRoots (hlooks : keeping.Looks path project) {book : ContractBook}
    (hbook : keeping.Sound book) :
    keeping.Accounts book (path.decls.map (rootToll keeping)).sum
      (fun after found => found.components = path.componentNames ∧
        List.Forall₂ after.Serves path.configurations found.configurations)
      (path.readRoots project) := by
  have hroot : ∀ decl ∈ path.decls, ∀ book, keeping.Sound book →
      keeping.Accounts book (rootToll keeping decl)
        (fun after read => read.1 = component? decl ∧
          Option.Rel after.Serves (configuration? decl) read.2) (do
        let component ← readComponent decl
        let configuration ← path.readConfiguration project decl
        return (component, configuration) :
          BookWork (Option ClassName × Option (ClassName × Id .contract))) := by
    intro decl _ book hbook
    obtain ⟨hvalue, hfaults⟩ := readComponent_spec decl
    refine .bindLogged hfaults hbook ?_
    rw [← add_zero (configurationToll keeping decl)]
    refine (accounts_readConfiguration hlooks decl hbook).bind fun read after _ hafter hread => ?_
    exact .pure hafter.sound ⟨hvalue, hread⟩
  unfold readRoots
  rw [← add_zero (List.sum _)]
  refine (Bookkeeping.Accounts.mapM (fun a b decl read hextends hread => ⟨hread.1,
    rel_option_imp (fun _ _ hserves => hserves.mono hextends) hread.2⟩) path.decls hroot hbook).bind
    fun read after _ hafter hall => .pure hafter.sound ⟨?_, ?_⟩
  · have hcomponents : read.map Prod.fst = path.decls.map component? :=
      eq_map_of_forall₂ (List.forall₂_map_right_iff.2 (hall.imp fun _ _ hread => hread.1))
    change read.filterMap (id ∘ Prod.fst) = path.decls.filterMap (id ∘ component?)
    rw [← List.filterMap_map, ← List.filterMap_map, hcomponents]
  · exact List.rel_filterMap (fun _ _ hread => hread.2) hall

end ClassPath

end InjectionCompiler
