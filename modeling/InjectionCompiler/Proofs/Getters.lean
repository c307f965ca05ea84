import InjectionCompiler.Proofs.Portrait
import InjectionCompiler.Proofs.Rearrangement

/-!
# The getters of interfaces

Where no interface extends itself, directly or through others, what a contract offers depends on the
class path alone.  The table of getters then holds for each interface what it offers in the end,
whoever asked for it first, and what was reported of an interface was reported once.
-/

namespace InjectionCompiler

open Relation (ReflTransGen TransGen)

/-- Whether the class can be read as a contract. -/
def ClassDecl.isPlainInterface (decl : ClassDecl) : Bool :=
  decl.isInterface && decl.typeParameters.isEmpty

namespace ClassPath

/-! ## Extended interfaces -/

/-- The interfaces that are read together with the named one. -/
def superInterfaces (path : ClassPath) (name : ClassName) : List ClassName :=
  match path.find? name with
  | none => []
  | some decl => if decl.isPlainInterface then decl.interfaces else []

theorem mem_parents_of_mem_superInterfaces {path : ClassPath} {name parent : ClassName}
    (h : parent ∈ path.superInterfaces name) : parent ∈ path.parents name := by
  unfold superInterfaces at h
  unfold parents
  split at h
  · cases h
  · next decl hdecl =>
      rw [hdecl]
      split at h
      · exact List.mem_append_right _ h
      · cases h

def inheritance (path : ClassPath) : SearchSpace ClassName where
  next := path.superInterfaces
  bound := path.allParents
  closed h := mem_allParents (mem_parents_of_mem_superInterfaces h)

/-- One interface extends the other, directly. -/
def Inherits (path : ClassPath) : ClassName → ClassName → Prop :=
  path.inheritance.Step

/-- No interface of the path extends itself. -/
def Layered (path : ClassPath) : Prop :=
  ∀ name, ¬ TransGen path.Inherits name name

theorem Layered.wellFounded {path : ClassPath} (h : path.Layered) :
    WellFounded fun parent name => path.Inherits name parent :=
  SearchSpace.wellFounded_of_acyclic h

theorem exists_decl_of_inherits {path : ClassPath} {name parent : ClassName}
    (h : path.Inherits name parent) :
    ∃ decl ∈ path.decls, decl.name = name ∧ parent ∈ decl.interfaces := by
  have hparent : parent ∈ path.superInterfaces name := h
  unfold superInterfaces at hparent
  split at hparent
  · cases hparent
  · next decl hdecl =>
      split at hparent
      · exact ⟨decl, mem_decls_of_find? hdecl, name_of_find? hdecl, hparent⟩
      · cases hparent

theorem layered_of_rank {path : ClassPath} (rank : ClassName → Nat)
    (h : ∀ decl ∈ path.decls, ∀ parent ∈ decl.interfaces, rank parent < rank decl.name) :
    path.Layered := by
  have hlower : ∀ {name parent}, TransGen path.Inherits name parent → rank parent < rank name := by
    intro name parent hway
    induction hway with
    | single hstep =>
        obtain ⟨decl, hdecl, rfl, hparent⟩ := exists_decl_of_inherits hstep
        exact h decl hdecl _ hparent
    | tail _ hstep ih =>
        obtain ⟨decl, hdecl, rfl, hparent⟩ := exists_decl_of_inherits hstep
        exact (h decl hdecl _ hparent).trans ih
  exact fun name hcycle => Nat.lt_irrefl _ (hlower hcycle)

/-! ## What an interface offers -/

noncomputable def offered (path : ClassPath) (hlayered : path.Layered) :
    ClassName → List Getter :=
  hlayered.wellFounded.fix fun name offered =>
    match path.find? name with
    | none => []
    | some decl =>
        if decl.isPlainInterface then
          mergedGetters (path.readOwnGetters decl).value
            ((path.superInterfaces name).attach.flatMap fun parent => offered parent.1 parent.2)
        else []

variable {path : ClassPath} {hlayered : path.Layered}

theorem offered_eq (name : ClassName) : path.offered hlayered name =
    match path.find? name with
    | none => []
    | some decl =>
        if decl.isPlainInterface then
          mergedGetters (path.readOwnGetters decl).value
            ((path.superInterfaces name).flatMap (path.offered hlayered))
        else [] := by
  have hall : ∀ names : List ClassName, names.attach.flatMap
      (fun parent => path.offered hlayered parent.1) = names.flatMap (path.offered hlayered) := by
    intro names
    rw [← List.flatMap_map Subtype.val, List.attach_map_subtype_val]
  rw [← hall, offered, WellFounded.fix_eq]

noncomputable def interfaceFaults (path : ClassPath) (hlayered : path.Layered) (name : ClassName) :
    Nat :=
  match path.find? name with
  | none => 0
  | some decl =>
      if decl.isPlainInterface then
        (path.readOwnGetters decl).faults.length +
          (mergeGetters name (path.readOwnGetters decl).value
            ((path.superInterfaces name).flatMap (path.offered hlayered))).faults.length
      else 1

/-- An interface that can be read: all that it extends, directly or through others, is known. -/
def Legible (path : ClassPath) (name : ClassName) : Prop :=
  ∀ parent, ReflTransGen path.Inherits name parent → (path.find? parent).isSome

theorem checkContractClass_spec (decl : ClassDecl) :
    (checkContractClass decl).value = decl.isPlainInterface ∧
      (checkContractClass decl).faults.length = (!decl.isPlainInterface).toNat := by
  unfold checkContractClass ClassDecl.isPlainInterface
  cases decl.isInterface <;> cases decl.typeParameters.isEmpty <;> exact ⟨rfl, rfl⟩

end ClassPath

/-! ## The table of getters -/

namespace GetterTable

variable (path : ClassPath) (hlayered : path.Layered)

/-- The interfaces in the table are worked out, with all that they extend. -/
structure WorkedOut (known : GetterTable) : Prop where
  offered : ∀ name getters, known.find? name = some getters → getters = path.offered hlayered name
  closed : ∀ name ∈ known.keys, ∀ parent, path.Inherits name parent → parent ∈ known.keys
  isSome : ∀ name ∈ known.keys, (path.find? name).isSome

noncomputable def spent (known : GetterTable) : Nat :=
  (known.keys.map (path.interfaceFaults hlayered)).sum

/-- What working out the named interfaces, with all that they extend, does to the table. -/
structure Grows (names : List ClassName) (known after : GetterTable) (count : Nat) : Prop where
  workedOut : WorkedOut path hlayered after
  mem_keys_iff : ∀ name, name ∈ after.keys ↔
    name ∈ known.keys ∨ ∃ root ∈ names, ReflTransGen path.Inherits root name
  count_eq : count + spent path hlayered known = spent path hlayered after

variable {path hlayered} {known after : GetterTable}

theorem WorkedOut.mem_of_reaches (h : WorkedOut path hlayered known) {name parent : ClassName}
    (hname : name ∈ known.keys) (hway : ReflTransGen path.Inherits name parent) :
    parent ∈ known.keys := by
  induction hway with
  | refl => exact hname
  | tail _ hstep ih => exact h.closed _ ih _ hstep

theorem WorkedOut.legible (h : WorkedOut path hlayered known) {name : ClassName}
    (hname : name ∈ known.keys) : path.Legible name :=
  fun _ hway => h.isSome _ (h.mem_of_reaches hname hway)

theorem workedOut_empty (path : ClassPath) (hlayered : path.Layered) :
    WorkedOut path hlayered ∅ where
  offered _ _ h := by cases h
  closed _ h := absurd h List.not_mem_nil
  isSome _ h := absurd h List.not_mem_nil

theorem Grows.nil (h : WorkedOut path hlayered known) : Grows path hlayered [] known known 0 where
  workedOut := h
  mem_keys_iff _ := by simp
  count_eq := Nat.zero_add _

theorem Grows.of_known (h : WorkedOut path hlayered known) {name : ClassName}
    (hname : name ∈ known.keys) : Grows path hlayered [name] known known 0 where
  workedOut := h
  mem_keys_iff parent := by
    refine (or_iff_left_of_imp ?_).symm
    rintro ⟨root, hroot, hway⟩
    rw [List.mem_singleton.1 hroot] at hway
    exact h.mem_of_reaches hname hway
  count_eq := Nat.zero_add _

theorem Grows.cons {name : ClassName} {names : List ClassName} {between : GetterTable}
    {first rest : Nat} (h : Grows path hlayered [name] known between first)
    (h' : Grows path hlayered names between after rest) :
    Grows path hlayered (name :: names) known after (first + rest) where
  workedOut := h'.workedOut
  mem_keys_iff parent := by
    rw [h'.mem_keys_iff, h.mem_keys_iff, or_assoc]
    simp only [List.mem_cons, List.not_mem_nil, or_false, exists_eq_left, exists_eq_or_imp]
  count_eq := by
    have hfirst := h.count_eq
    have hrest := h'.count_eq
    omega

theorem Grows.insert {name : ClassName} {names : List ClassName} {between : GetterTable}
    {count : Nat} (h : Grows path hlayered names known between count)
    (hparents : ∀ parent, path.Inherits name parent ↔ parent ∈ names)
    (hknown : (path.find? name).isSome) (hnew : name ∉ between.keys) :
    Grows path hlayered [name] known (Table.insert between name (path.offered hlayered name))
      (count + path.interfaceFaults hlayered name) := by
  have hkeys : (Table.insert between name (path.offered hlayered name)).keys =
      between.keys ++ [name] := by
    rw [Table.keys_insert, if_neg hnew]
  refine ⟨⟨fun other getters hfind => ?_, fun other hother parent hstep => ?_,
    fun other hother => ?_⟩, fun parent => ?_, ?_⟩
  · rw [Table.find?_insert] at hfind
    split at hfind
    · next heq => rw [heq, ← Option.some.inj hfind]
    · exact h.workedOut.offered other getters hfind
  · rw [hkeys, List.mem_append, List.mem_singleton] at hother ⊢
    rcases hother with hother | rfl
    · exact .inl (h.workedOut.closed _ hother _ hstep)
    · exact .inl ((h.mem_keys_iff parent).2 (.inr ⟨parent, (hparents parent).1 hstep, .refl⟩))
  · rw [hkeys, List.mem_append, List.mem_singleton] at hother
    rcases hother with hother | rfl
    · exact h.workedOut.isSome _ hother
    · exact hknown
  · rw [hkeys, List.mem_append, List.mem_singleton, h.mem_keys_iff, or_assoc]
    refine or_congr_right ?_
    simp only [List.mem_singleton, exists_eq_left, ReflTransGen.cases_head_iff (a := name)]
    simp only [hparents, or_comm, eq_comm]
  · have hcount := h.count_eq
    unfold spent at hcount ⊢
    rw [hkeys, List.map_append, List.sum_append, ← hcount, List.map_singleton, List.sum_singleton]
    omega

end GetterTable

/-! ## Working interfaces out -/

open GetterTable (WorkedOut Grows)

/-- What working interfaces out shows: their getters, and a table that has grown by them. -/
def GetterTable.Offers (path : ClassPath) (hlayered : path.Layered) (known : GetterTable)
    (names : List ClassName) (read : List Getter × GetterTable) (count : Nat) : Prop :=
  read.1 = names.flatMap (path.offered hlayered) ∧ Grows path hlayered names known read.2 count

namespace ClassPath

variable {path : ClassPath} {hlayered : path.Layered}

/-- One interface is worked out as `offered` says. -/
def WorksOut (path : ClassPath) (hlayered : path.Layered)
    (read : ClassName → GetterTable → Work (List Getter × GetterTable)) (name : ClassName) : Prop :=
  ∀ known, WorkedOut path hlayered known →
    (read name known).Settles True (path.Legible name) (known.Offers path hlayered [name])

theorem settles_readAllGetters
    {read : ClassName → GetterTable → Work (List Getter × GetterTable)} {names : List ClassName}
    (hread : ∀ name ∈ names, path.WorksOut hlayered read name) {known : GetterTable}
    (hknown : WorkedOut path hlayered known) :
    (readAllGetters read names known).Settles True (∀ name ∈ names, path.Legible name)
      (known.Offers path hlayered names) := by
  induction names generalizing known with
  | nil =>
      rw [show (∀ name ∈ [], path.Legible name) = True by simp]
      exact .pure ⟨rfl, .nil hknown⟩
  | cons name names ih =>
      have hfine : (∀ other ∈ name :: names, path.Legible other) =
          (path.Legible name ∧ (∀ other ∈ names, path.Legible other) ∧ True) := by simp
      rw [readAllGetters, hfine]
      refine (hread name (List.mem_cons_self ..) known hknown).bind fun first count _ hfirst => ?_
      obtain ⟨getters, between⟩ := first
      obtain ⟨rfl, hgrows⟩ := hfirst
      refine Work.Settles.bind (ih (fun other hother => hread other (List.mem_cons_of_mem _ hother))
        hgrows.workedOut) fun rest more _ hrest => .pure ?_
      obtain ⟨others, after⟩ := rest
      obtain ⟨rfl, hlater⟩ := hrest
      refine ⟨?_, hgrows.cons hlater⟩
      rw [List.flatMap_singleton, List.flatMap_cons]

theorem not_legible_of_find? {name : ClassName} (h : path.find? name = none) :
    ¬ path.Legible name := by
  intro hlegible
  have hsome := hlegible name .refl
  rw [h] at hsome
  cases hsome

theorem legible_iff {name : ClassName} (hknown : (path.find? name).isSome) :
    path.Legible name ↔ ∀ parent ∈ path.superInterfaces name, path.Legible parent := by
  constructor
  · exact fun h parent hparent other hway => h other (.head hparent hway)
  · intro h other hway
    rcases hway.cases_head with rfl | ⟨parent, hparent, hrest⟩
    · exact hknown
    · exact h parent hparent other hrest

theorem not_mem_keys_of_grows {name : ClassName} {known between : GetterTable} {count : Nat}
    (hnew : name ∉ known.keys)
    (h : Grows path hlayered (path.superInterfaces name) known between count) :
    name ∉ between.keys := by
  rw [h.mem_keys_iff, not_or]
  refine ⟨hnew, ?_⟩
  rintro ⟨parent, hparent, hway⟩
  exact hlayered name (.head' hparent hway)

/-- Works out an interface that is not in the table, where `read` works out those it extends. -/
def newInterface (path : ClassPath)
    (read : ClassName → GetterTable → Work (List Getter × GetterTable)) (name : ClassName)
    (decl : ClassDecl) (known : GetterTable) : Work (List Getter × GetterTable) := do
  if ← checkContractClass decl then
    let (inherited, known) ← readAllGetters read decl.interfaces known
    let own ← path.readOwnGetters decl
    let getters ← mergeGetters name own inherited
    return (getters, known.insert name getters)
  else
    return ([], known.insert name [])

theorem settles_newInterface {name : ClassName} {decl : ClassDecl}
    (hdecl : path.find? name = some decl)
    {read : ClassName → GetterTable → Work (List Getter × GetterTable)}
    (hread : ∀ parent ∈ path.superInterfaces name, path.WorksOut hlayered read parent)
    {known : GetterTable} (hknown : WorkedOut path hlayered known) (hnew : name ∉ known.keys) :
    (path.newInterface read name decl known).Settles True (path.Legible name)
      (known.Offers path hlayered [name]) := by
  unfold newInterface
  obtain ⟨hvalue, hfaults⟩ := checkContractClass_spec decl
  have hchecked : (liftM (checkContractClass decl) : Work Bool).Settles True True
      fun accepted count => accepted = decl.isPlainInterface ∧
        count = (!decl.isPlainInterface).toNat := .logged ⟨hvalue, hfaults⟩
  have hsome : (path.find? name).isSome := by rw [hdecl]; rfl
  -- How the recursion and the table unfold at `name`; both distinguish whether it is a plain
  -- interface.
  have hoffered : path.offered hlayered name = _ := path.offered_eq name
  have hown := ClassPath.interfaceFaults.eq_1 path hlayered name
  have hsuper := ClassPath.superInterfaces.eq_1 path name
  simp only [hdecl] at hoffered hown hsuper
  have hinsert := fun between count (h : Grows path hlayered (path.superInterfaces name) known
    between count) => h.insert (fun _ => .rfl) hsome (not_mem_keys_of_grows hnew h)
  cases hplain : decl.isPlainInterface with
  | false =>
      rw [hplain] at hchecked hoffered hown hsuper
      simp only [Bool.false_eq_true, if_false] at hoffered hown hsuper
      rw [hsuper] at hinsert
      rw [show path.Legible name = (True ∧ True) by simp [legible_iff hsome, hsuper]]
      refine hchecked.bind fun accepted count _ haccepted => ?_
      obtain ⟨rfl, rfl⟩ := haccepted
      refine .pure ⟨by rw [List.flatMap_singleton, hoffered], ?_⟩
      have hgrows := hinsert known 0 (.nil hknown)
      rw [hoffered, hown] at hgrows
      exact hgrows
  | true =>
      rw [hplain] at hchecked hoffered hown hsuper
      simp only [if_true] at hoffered hown hsuper
      rw [hsuper] at hinsert hread hoffered hown
      rw [show path.Legible name = (True ∧ (∀ parent ∈ decl.interfaces, path.Legible parent) ∧
        True ∧ True ∧ True) by simp [legible_iff hsome, hsuper]]
      refine hchecked.bind fun accepted count _ haccepted => ?_
      obtain ⟨rfl, rfl⟩ := haccepted
      refine Work.Settles.bind (settles_readAllGetters hread hknown)
        fun inherited count _ hall => ?_
      obtain ⟨inherited, between⟩ := inherited
      obtain ⟨rfl, hgrows⟩ := hall
      -- The faults of merging are counted as they are: they depend on the getters of both sides.
      have hmerged : ∀ own, (liftM (mergeGetters name own
          (decl.interfaces.flatMap (path.offered hlayered))) : Work (List Getter)).Settles True True
          fun getters count => getters = mergedGetters own
              (decl.interfaces.flatMap (path.offered hlayered)) ∧
            count = (mergeGetters name own
              (decl.interfaces.flatMap (path.offered hlayered))).faults.length :=
        fun own => .logged ⟨rfl, rfl⟩
      have hread : (liftM (path.readOwnGetters decl) : Work (List Getter)).Settles True True
          fun own count => own = (path.readOwnGetters decl).value ∧
            count = (path.readOwnGetters decl).faults.length := .logged ⟨rfl, rfl⟩
      refine hread.bind fun own ownCount _ hownCount => ?_
      obtain ⟨rfl, rfl⟩ := hownCount
      refine (hmerged _).bind fun getters mergeCount _ hmerge => ?_
      obtain ⟨rfl, rfl⟩ := hmerge
      refine .pure ⟨by rw [List.flatMap_singleton, hoffered], ?_⟩
      have hlater := hinsert between count hgrows
      rw [hoffered, hown] at hlater
      simpa [Nat.add_assoc] using hlater

theorem Layered.apart_cons (hlayered : path.Layered) {name parent : ClassName}
    (hparent : path.Inherits name parent) {trail : List ClassName}
    (htrail : ∀ earlier ∈ trail, ¬ ReflTransGen path.Inherits name earlier) :
    ∀ earlier ∈ name :: trail, ¬ ReflTransGen path.Inherits parent earlier := by
  intro earlier hearlier hway
  rcases List.mem_cons.1 hearlier with rfl | hearlier
  · exact hlayered earlier (.head' hparent hway)
  · exact htrail earlier hearlier (.head hparent hway)

theorem worksOut_readGetters (name : ClassName) {trail : List ClassName}
    (htrail : ∀ earlier ∈ trail, ¬ ReflTransGen path.Inherits name earlier) :
    path.WorksOut hlayered (path.readGetters trail) name := by
  -- The induction is on the interfaces below. The trail only has interfaces from which the current
  -- one is reached, so that without cycles it is never found there.
  induction name using hlayered.wellFounded.induction generalizing trail with
  | _ name ih =>
      intro known hknown
      rw [readGetters]
      split
      · next hdecl =>
          rw [eq_false (not_legible_of_find? hdecl)]
          exact .throw name
      · next decl hdecl =>
          split
          · next getters hfound =>
              have hmem := Table.mem_keys_of_find? hfound
              rw [eq_true (hknown.legible hmem)]
              refine .pure ⟨?_, .of_known hknown hmem⟩
              rw [List.flatMap_singleton]
              exact hknown.offered name getters hfound
          · next hnone =>
              rw [dif_neg fun hmem => htrail name hmem .refl]
              have hnew : name ∉ known.keys := fun hmem => by
                rw [← Table.find?_isSome_iff, hnone] at hmem
                cases hmem
              exact settles_newInterface hdecl
                (fun parent hparent => ih parent hparent (hlayered.apart_cons hparent htrail))
                hknown hnew

end ClassPath

end InjectionCompiler
