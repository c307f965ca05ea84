import InjectionCompiler.Proofs.Contracts

/-!
# Getters by plain recursion

An interface has the getters of all interfaces that it extends and then its own, each name once.
Told in this way the getters depend on the class path alone, and the order in which interfaces are
worked out has no part in them.
-/

namespace InjectionCompiler

namespace ClassPath

/-! ## Own getters -/

/-- The getter that a method is: it takes nothing and returns a type without open parts. -/
def getterOf? (path : ClassPath) (decl : ClassDecl) (method : MethodDecl) : Option Getter :=
  let injectee := (path.readInjectee method.returns method.annotations
    (memberName decl.name method.name)).value
  if method.isStatic = false ∧ method.typeParameters = [] ∧ method.parameters = [] ∧
      injectee.key.type.isOpen = false then
    some ⟨decl.name, method.name, injectee⟩
  else none

def ownGetters (path : ClassPath) (decl : ClassDecl) : List Getter :=
  decl.plainMethods.filterMap (path.getterOf? decl)

variable {path : ClassPath} {decl : ClassDecl}

theorem value_readGetter (method : MethodDecl) (hstatic : method.isStatic = false) :
    (path.readGetter decl method).value = path.getterOf? decl method := by
  unfold readGetter getterOf?
  cases method.typeParameters with
  | cons => simp; rfl
  | nil =>
      cases method.parameters with
      | cons => simp; rfl
      | nil =>
          simp only [List.isEmpty_nil, Bool.not_true, Bool.false_eq_true, if_false,
            Logged.value_bind, hstatic, true_and]
          split <;> simp_all <;> rfl

theorem value_readOwnGetters (decl : ClassDecl) :
    (path.readOwnGetters decl).value = path.ownGetters decl := by
  have hstatic : ∀ method, path.getterOf? decl method =
      if method.isStatic = false then path.getterOf? decl method else none := by
    intro method
    split
    · rfl
    · next h => simp [getterOf?, h]
  simp only [readOwnGetters, Logged.value_bind, Logged.value_pure, Logged.value_mapM, ownGetters]
  rw [List.filterMap_map, List.filterMap_filter]
  refine List.filterMap_congr fun method _ => ?_
  rw [hstatic]
  cases h : method.isStatic <;> simp [h, value_readGetter]

theorem isOpen_of_mem_ownGetters {getter : Getter} (h : getter ∈ path.ownGetters decl) :
    getter.injectee.key.type.isOpen = false := by
  obtain ⟨method, -, hgetter⟩ := List.mem_filterMap.1 h
  obtain ⟨hvalid, heq⟩ := Option.ite_none_right_eq_some.1 hgetter
  cases heq
  exact hvalid.2.2.2

/-! ## Own and inherited getters -/

/-- The getters of an interface, told by those of the interfaces that it extends. -/
inductive HasGetters (path : ClassPath) : ClassName → List Getter → Prop where
  | unusable {name : ClassName} {decl : ClassDecl} (hdecl : path.find? name = some decl)
      (hunusable : decl.isPlainInterface = false) : HasGetters path name []
  | interface {name : ClassName} {decl : ClassDecl} {offered : ClassName → List Getter}
      (hdecl : path.find? name = some decl) (hplain : decl.isPlainInterface = true)
      (hparents : ∀ parent ∈ decl.interfaces, HasGetters path parent (offered parent)) :
      HasGetters path name
        (firsts Getter.method ((decl.interfaces.flatMap offered).filter fun getter =>
            getter.method ∉ (path.ownGetters decl).map Getter.method) ++
          firsts Getter.method (path.ownGetters decl))

theorem mergedGetters_eq (own inherited : List Getter) :
    mergedGetters own inherited =
      firsts Getter.method (inherited.filter fun getter => getter.method ∉ own.map Getter.method) ++
        firsts Getter.method own := by
  simp only [mergedGetters, visibleGetters, List.contains_eq_mem, decide_not]

namespace HasGetters

variable {name : ClassName} {getters others : List Getter}

theorem unique (h : path.HasGetters name getters) (h' : path.HasGetters name others) :
    getters = others := by
  induction h generalizing others with
  | unusable hdecl hunusable =>
      cases h' with
      | unusable => rfl
      | interface hdecl' hplain =>
          cases hdecl.symm.trans hdecl'
          rw [hplain] at hunusable
          cases hunusable
  | interface hdecl hplain _ ih =>
      cases h' with
      | unusable hdecl' hunusable =>
          cases hdecl.symm.trans hdecl'
          rw [hplain] at hunusable
          cases hunusable
      | interface hdecl' _ hparents =>
          cases hdecl.symm.trans hdecl'
          rw [List.flatMap_congr fun parent hparent => ih parent hparent (hparents parent hparent)]

theorem nodup_names (h : path.HasGetters name getters) :
    (getters.map Getter.method).Nodup := by
  cases h with
  | unusable => exact .nil
  | interface =>
      rw [List.map_append, List.nodup_append]
      refine ⟨nodup_map_firstsFrom .., nodup_map_firstsFrom .., ?_⟩
      rintro method hinherited _ hown rfl
      obtain ⟨getter, hgetter, rfl⟩ := List.mem_map.1 hinherited
      have hvisible := (List.mem_filter.1 (mem_of_mem_firstsFrom hgetter).1).2
      exact of_decide_eq_true hvisible (key_mem_map_firstsFrom.1 hown).1

theorem isOpen (h : path.HasGetters name getters) :
    ∀ getter ∈ getters, getter.injectee.key.type.isOpen = false := by
  induction h with
  | unusable => exact fun _ h => absurd h List.not_mem_nil
  | interface _ _ _ ih =>
      intro getter hgetter
      rcases List.mem_append.1 hgetter with hinherited | hown
      · have hmem := (List.mem_filter.1 (mem_of_mem_firstsFrom hinherited).1).1
        obtain ⟨parent, hparent, hoffered⟩ := List.mem_flatMap.1 hmem
        exact ih parent hparent getter hoffered
      · exact isOpen_of_mem_ownGetters (mem_of_mem_firstsFrom hown).1

end HasGetters

theorem hasGetters_offered {hlayered : path.Layered} {name : ClassName}
    (hlegible : path.Legible name) : path.HasGetters name (path.offered hlayered name) := by
  induction name using hlayered.wellFounded.induction with
  | _ name ih =>
      obtain ⟨decl, hdecl⟩ := Option.isSome_iff_exists.1 (hlegible name .refl)
      have hsuper := ClassPath.superInterfaces.eq_1 path name
      have hoffered : path.offered hlayered name = _ := path.offered_eq name
      simp only [hdecl] at hsuper hoffered
      cases hplain : decl.isPlainInterface with
      | false =>
          rw [hplain] at hoffered
          simp only [Bool.false_eq_true, if_false] at hoffered
          rw [hoffered]
          exact .unusable hdecl hplain
      | true =>
          rw [hplain] at hoffered hsuper
          simp only [if_true] at hoffered hsuper
          rw [hoffered, hsuper, mergedGetters_eq, value_readOwnGetters]
          refine .interface hdecl hplain fun parent hparent => ?_
          rw [← hsuper] at hparent
          exact ih parent hparent fun other hway => hlegible other (.head hparent hway)

end ClassPath

end InjectionCompiler
