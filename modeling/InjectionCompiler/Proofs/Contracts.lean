import InjectionCompiler.Proofs.Getters

/-!
# An exact account of contracts

Where no interface extends itself, a book of contracts holds for each name what the class path makes
of it.  The faults that were reported on the way are those of the contracts in the book and of the
interfaces that these extend, each counted once.
-/

namespace InjectionCompiler

open Relation (ReflTransGen)
open GetterTable (WorkedOut Grows)

namespace ClassPath

def qualifierOf (path : ClassPath) (name : ClassName) : Logged (Option Annotation) :=
  match path.find? name with
  | none => pure none
  | some decl => path.readQualifier decl.annotations name.display

noncomputable def contractOf (path : ClassPath) (hlayered : path.Layered) (project : String)
    (name : ClassName) : Contract where
  name := name
  implementation := contractImplementation name project
  key := ⟨.ofClass name, (path.qualifierOf name).value⟩
  getters := path.offered hlayered name

end ClassPath

namespace ContractBook

variable (path : ClassPath) (hlayered : path.Layered) (project : String)

/-- The contracts in the book are those that their names stand for, and the interfaces in it are
those that the contracts extend. -/
structure Exact (book : ContractBook) : Prop where
  contracts : ∀ name contract, book.contracts.named? name = some contract →
    contract = path.contractOf hlayered project name
  getters : WorkedOut path hlayered book.getters
  mem_getters_iff : ∀ parent, parent ∈ book.getters.keys ↔
    ∃ name ∈ book.contracts.names, ReflTransGen path.Inherits name parent

noncomputable def spent (book : ContractBook) : Nat :=
  (book.contracts.names.map fun name => (path.qualifierOf name).faults.length).sum +
    GetterTable.spent path hlayered book.getters

variable {path hlayered project} {book : ContractBook}

theorem exact_empty : Exact path hlayered project ∅ where
  contracts _ _ h := by cases h
  getters := GetterTable.workedOut_empty path hlayered
  mem_getters_iff _ := iff_of_false List.not_mem_nil fun ⟨_, h, _⟩ => absurd h List.not_mem_nil

theorem Exact.named (h : Exact path hlayered project book) : book.Named := by
  intro name contract hcontract
  rw [h.contracts name contract hcontract]
  rfl

theorem Exact.insert (h : Exact path hlayered project book) {name : ClassName}
    (hnew : book.contracts.find? name = none) {known : GetterTable} {count : Nat}
    (hgrows : Grows path hlayered [name] book.getters known count) :
    Exact path hlayered project
        ⟨(book.contracts.insert name (path.contractOf hlayered project name)).2, known⟩ ∧
      (path.qualifierOf name).faults.length + count + book.spent path hlayered =
        ContractBook.spent path hlayered
          ⟨(book.contracts.insert name (path.contractOf hlayered project name)).2, known⟩ := by
  have hnames : (book.contracts.insert name (path.contractOf hlayered project name)).2.names =
      book.contracts.names ++ [name] := by
    rw [Arena.names, Table.keys, Arena.insert_of_find?_eq_none hnew, List.map_append]
    rfl
  refine ⟨⟨fun other contract hfind => ?_, hgrows.workedOut, fun parent => ?_⟩, ?_⟩
  · change (book.contracts.table.insert name _).find? other = some contract at hfind
    rw [Table.find?_insert] at hfind
    split at hfind
    · next heq => rw [heq, ← Option.some.inj hfind]
    · exact h.contracts other contract hfind
  · rw [hgrows.mem_keys_iff, h.mem_getters_iff, hnames]
    simp only [List.mem_append, or_and_right, exists_or]
  · have hcount := hgrows.count_eq
    simp only [spent, hnames, List.map_append, List.sum_append, List.map_singleton,
      List.sum_singleton]
    omega

end ContractBook

namespace ClassPath

variable {path : ClassPath}

/-- The bookkeeping that accounts for every contract and for every fault of contracts. -/
noncomputable def exact (path : ClassPath) (hlayered : path.Layered) (project : String) :
    Bookkeeping where
  Sound := ContractBook.Exact path hlayered project
  Readable := path.Legible
  spent := ContractBook.spent path hlayered
  strict := True
  sound_empty := ContractBook.exact_empty
  named_of_sound _ := ContractBook.Exact.named

theorem settles_lifted {α : Type} {work : Work α} {strict fine : Prop} {Holds : α → Nat → Prop}
    (h : work.Settles strict fine Holds) (book : ContractBook) :
    ((liftM work : BookWork α).run book).Settles strict fine
      fun ended count => ended.2 = book ∧ Holds ended.1 count := by
  change (work >>= fun value => pure (value, book)).Settles _ _ _
  rw [← and_true fine]
  exact h.bind fun value count _ hholds => .pure ⟨rfl, hholds⟩

theorem settles_lifted_logged {α : Type} (logged : Logged α) (book : ContractBook) :
    ((liftM logged : BookWork α).run book).Settles True True
      fun ended count => ended = (logged.value, book) ∧ count = logged.faults.length := by
  have hlogged : (liftM logged : Work α).Settles True True
      fun value count => value = logged.value ∧ count = logged.faults.length := .logged ⟨rfl, rfl⟩
  refine Work.Settles.mono (settles_lifted hlogged book) fun ended count hended => ?_
  exact ⟨Prod.ext hended.2.1 hended.1, hended.2.2⟩

theorem qualifierOf_of_find? {name : ClassName} {decl : ClassDecl}
    (hdecl : path.find? name = some decl) :
    path.qualifierOf name = path.readQualifier decl.annotations name.display := by
  rw [qualifierOf, hdecl]

theorem settles_newContract {hlayered : path.Layered} {project : String} {book : ContractBook}
    (hbook : ContractBook.Exact path hlayered project book) {name : ClassName}
    (hnew : book.contracts.find? name = none) :
    ((path.readContract project name).run book).Settles True (path.Legible name)
      fun ended count =>
        (path.exact hlayered project).Advances ((path.exact hlayered project).asking name) book
          ended.2 count ∧ ended.2.contracts.nameOf? ended.1 = some name := by
  unfold readContract
  rw [StateT.run_bind, StateT.run_get, pure_bind]
  simp only [hnew]
  cases hdecl : path.find? name with
  | none =>
      rw [eq_false (not_legible_of_find? hdecl)]
      exact .throw name
  | some decl =>
      dsimp only
      rw [show path.Legible name = (True ∧ True ∧ path.Legible name ∧ True) by simp]
      rw [StateT.run_bind]
      refine (settles_lifted_logged _ book).bind fun told count _ htold => ?_
      obtain ⟨rfl, rfl⟩ := htold
      rw [StateT.run_bind]
      refine (settles_lifted_logged _ book).bind fun qualifier count _ hqualifier => ?_
      obtain ⟨rfl, rfl⟩ := hqualifier
      rw [StateT.run_bind]
      refine Work.Settles.bind (settles_lifted (worksOut_readGetters name
        (fun _ h => absurd h List.not_mem_nil) book.getters hbook.getters) book)
        fun read count _ hread => ?_
      obtain ⟨⟨getters, known⟩, between⟩ := read
      obtain ⟨rfl, hoffers, hgrows⟩ := hread
      rw [List.flatMap_singleton] at hoffers
      dsimp only at hoffers hgrows hbook hnew
      have hcontract : path.contractOf hlayered project name = {
          name := name
          implementation := contractImplementation name project
          key := ⟨.ofClass name, (path.readQualifier decl.annotations name.display).value⟩
          getters := getters } := by
        rw [contractOf, qualifierOf_of_find? hdecl, hoffers]
      dsimp only
      rw [← hcontract]
      -- The contract is entered together with the interfaces that its own interface extends.
      obtain ⟨hexact, hspent⟩ := hbook.insert hnew hgrows
      have hentries := Arena.insert_of_find?_eq_none hnew (path.contractOf hlayered project name)
      rw [qualifierOf_of_find? hdecl] at hspent
      refine .pure ⟨⟨hexact, ⟨_, hentries.symm⟩, fun other => ?_, Nat.zero_le _, fun _ => ?_⟩, ?_⟩
      · dsimp only
        rw [Arena.names, Table.keys, hentries, List.map_append, List.mem_append]
        exact or_congr_right List.mem_singleton
      · have hquiet : (Logged.debug ("Contract: " ++ name.display) []).faults.length = 0 := rfl
        change _ + ContractBook.spent path hlayered between =
          0 + ContractBook.spent path hlayered _
        rw [← hspent, hquiet]
        omega
      · exact Arena.nameOf?_of_find? (Arena.find?_insert_self ..)

theorem exact_looks (path : ClassPath) (hlayered : path.Layered) (project : String) :
    (path.exact hlayered project).Looks path project := by
  intro name book hbook
  cases hfind : book.contracts.find? name with
  | none => exact settles_newContract hbook hfind
  | some id =>
      refine accounts_readContract_of_find? hbook hfind fun _ => ?_
      have hname : name ∈ book.contracts.names :=
        List.mem_of_getElem? (Arena.nameOf?_of_find? hfind)
      exact hbook.getters.legible ((hbook.mem_getters_iff name).2 ⟨name, hname, .refl⟩)

/-! ## Rearranged paths -/

namespace Rearranges

variable {other : ClassPath} (h : path.Rearranges other)

include h

theorem superInterfaces (name : ClassName) :
    other.superInterfaces name = path.superInterfaces name := by
  simp only [ClassPath.superInterfaces, h.find?_eq]

theorem inherits : other.Inherits = path.Inherits := by
  funext name parent
  change (parent ∈ other.superInterfaces name) = (parent ∈ path.superInterfaces name)
  rw [h.superInterfaces]

theorem layered (hlayered : path.Layered) : other.Layered := by
  intro name
  rw [h.inherits]
  exact hlayered name

theorem legible : other.Legible = path.Legible := by
  funext name
  simp only [Legible, h.inherits, h.find?_eq]

theorem qualifierOf (name : ClassName) : other.qualifierOf name = path.qualifierOf name := by
  simp only [ClassPath.qualifierOf, h.readQualifier, h.find?_eq]

variable {hlayered : path.Layered} {hothers : other.Layered}

theorem offered : other.offered hothers = path.offered hlayered := by
  funext name
  induction name using hlayered.wellFounded.induction with
  | _ name ih =>
      have hparents : (path.superInterfaces name).flatMap (other.offered hothers) =
          (path.superInterfaces name).flatMap (path.offered hlayered) :=
        List.flatMap_congr fun parent hparent => ih parent hparent
      simp only [offered_eq, h.find?_eq, h.readOwnGetters, h.superInterfaces, hparents]

theorem contractOf (project : String) (name : ClassName) :
    other.contractOf hothers project name = path.contractOf hlayered project name := by
  rw [ClassPath.contractOf, ClassPath.contractOf, h.qualifierOf, h.offered]

theorem interfaceFaults (name : ClassName) :
    other.interfaceFaults hothers name = path.interfaceFaults hlayered name := by
  have hoffered : other.offered hothers = path.offered hlayered := h.offered
  simp only [ClassPath.interfaceFaults, h.find?_eq, h.readOwnGetters, h.superInterfaces, hoffered]

theorem spent_eq {project : String} {book held : ContractBook}
    (hbook : ContractBook.Exact path hlayered project book)
    (hheld : ContractBook.Exact other hothers project held)
    (hnames : book.contracts.names.Perm held.contracts.names) :
    book.spent path hlayered = held.spent other hothers := by
  have hkeys : book.getters.keys.Perm held.getters.keys := by
    refine (List.perm_ext_iff_of_nodup book.getters.distinct held.getters.distinct).2
      fun parent => ?_
    change parent ∈ book.getters.keys ↔ parent ∈ held.getters.keys
    rw [hbook.mem_getters_iff, hheld.mem_getters_iff, h.inherits]
    simp only [hnames.mem_iff]
  have hfaults : other.interfaceFaults hothers = path.interfaceFaults hlayered :=
    funext h.interfaceFaults
  have hcontracts := (hnames.map fun name => (path.qualifierOf name).faults.length).sum_eq
  have hgetters := (hkeys.map (path.interfaceFaults hlayered)).sum_eq
  simp only [ContractBook.spent, GetterTable.spent, h.qualifierOf, hfaults, hcontracts, hgetters]

end Rearranges

end ClassPath

end InjectionCompiler
