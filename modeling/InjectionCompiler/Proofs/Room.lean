import InjectionCompiler.Plan
import InjectionCompiler.Proofs.Firsts
import InjectionCompiler.Proofs.Naming

/-!
# Room for helpers

A helper gets its name when its base, or the base with a number, is free.  The bases of different
helpers have no such name in common, so that it does not matter which helper is named first.
-/

namespace InjectionCompiler

/-! ## Bases -/

/-- The base itself or the base with a number behind it. -/
def IsNameOn (base : String) (name : ClassName) : Prop :=
  ∃ number : String, '$' ∉ number.toList ∧ name = ⟨base ++ number⟩

def HasRoom (free : ClassName → Prop) (base : String) : Prop :=
  free ⟨base⟩ ∨ ∃ index < NamePattern.candidateCount, free (NamePattern.candidate ⟨base, ""⟩ index)

theorem isNameOn_base (base : String) : IsNameOn base ⟨base⟩ :=
  ⟨"", by decide, by rw [String.append_empty]⟩

theorem isNameOn_candidate (base : String) (index : Nat) :
    IsNameOn base (NamePattern.candidate ⟨base, ""⟩ index) :=
  ⟨toString index, NameSupply.not_mem_toString_nat index, by
    rw [NamePattern.candidate, String.append_empty]⟩

theorem hasRoom_congr {free other : ClassName → Prop} {base : String}
    (h : ∀ name, IsNameOn base name → (free name ↔ other name)) :
    HasRoom free base ↔ HasRoom other base := by
  refine or_congr (h _ (isNameOn_base base)) (exists_congr fun index => and_congr_right fun _ => ?_)
  exact h _ (isNameOn_candidate base index)

/-- No name is on both bases. -/
def BasesApart (base other : String) : Prop :=
  ∀ name, IsNameOn base name → ¬ IsNameOn other name

theorem basesApart_of_fronts {front other project : String} (hproject : '$' ∉ project.toList)
    (hne : front ≠ other) : BasesApart (front ++ "$" ++ project) (other ++ "$" ++ project) := by
  rintro _ ⟨number, hnumber, rfl⟩ ⟨number', hnumber', heq⟩
  have hback : ∀ {number : String}, '$' ∉ number.toList →
      '$' ∉ (project.toList ++ number.toList) := by
    intro number hnumber hmem
    exact (List.mem_append.1 hmem).elim hproject hnumber
  have hlists := congrArg (fun name : ClassName => name.internal.toList) heq
  simp only [String.toList_append, List.append_assoc] at hlists
  obtain ⟨hfronts, -⟩ := append_cons_inj_of_not_mem (hback hnumber) (hback hnumber') hlists
  exact hne (String.toList_inj.1 hfronts)

/-- What stands in front of the project in the base of an invader. -/
def PackageInvader.front (package : String) : String :=
  (if package.isEmpty then "" else package ++ "/") ++ "Ferrous$PackageInvader"

theorem PackageInvader.baseName_eq (package project : String) :
    baseName package project = front package ++ "$" ++ project := by
  have hfixed : "Ferrous$PackageInvader$" = "Ferrous$PackageInvader" ++ "$" := rfl
  unfold baseName front
  split <;> simp only [hfixed, String.append_assoc, String.empty_append]

theorem PackageInvader.front_injective : Function.Injective front := by
  intro package other h
  have hprefix := (String.append_left_inj _).1 h
  have hslash : ∀ package : String, "" ≠ package ++ "/" := by
    intro package heq
    have hlists := congrArg String.toList heq
    simp at hlists
  split_ifs at hprefix with hpackage hother hother
  · rw [String.isEmpty_iff.1 hpackage, String.isEmpty_iff.1 hother]
  · exact absurd hprefix (hslash _)
  · exact absurd hprefix.symm (hslash _)
  · exact (String.append_left_inj _).1 hprefix

theorem PackageInvader.basesApart {project : String} (hproject : '$' ∉ project.toList)
    {package other : String} (hne : package ≠ other) :
    BasesApart (baseName package project) (baseName other project) := by
  rw [baseName_eq, baseName_eq]
  exact basesApart_of_fronts hproject fun heq => hne (front_injective heq)

theorem PackageInvader.basesApart_registry {project : String} (hproject : '$' ∉ project.toList)
    (package : String) :
    BasesApart (baseName package project) (KeyRegistry.baseName project) := by
  rw [baseName_eq, KeyRegistry.baseName]
  refine basesApart_of_fronts hproject fun heq => ?_
  have hmem : '$' ∈ (front package).toList := by
    rw [front, String.toList_append]
    exact List.mem_append_right _ (by decide)
  rw [heq] at hmem
  exact absurd hmem (by decide)

/-! ## Taking names -/

namespace NameSupply

theorem hasRoom_take {supply : NameSupply} {name : ClassName} {base : String}
    (h : ¬ IsNameOn base name) :
    HasRoom (fun other => (supply.take name).isFree other = true) base ↔
      HasRoom (fun other => supply.isFree other = true) base := by
  refine hasRoom_congr fun other hother => ?_
  have hne : other ≠ name := fun heq => h (heq ▸ hother)
  simp only [isFree_iff, take, List.mem_cons, hne, false_or]

end NameSupply

namespace Assigning

theorem tells_takeName (before : Assignment) (base : String) :
    Tells before
      (fun name after => HasRoom (fun name => before.names.isFree name = true) base ∧
        after = { before with names := before.names.take name } ∧ IsNameOn base name)
      (fun failure _ => ¬ HasRoom (fun name => before.names.isFree name = true) base ∧
        ∃ text, failure = .nameExhausted text)
      (takeName fun supply => supply.uniqueOrIndexed base) := by
  obtain ⟨answer, hanswer, houtcome⟩ :=
    (NameRequest.preferring base).outcome_takeName_choose before
  change (takeName fun supply => supply.uniqueOrIndexed base).outcome before = _ at houtcome
  rw [Tells, houtcome]
  cases hanswer with
  | preferred hname hfree =>
      cases hname
      rw [NameSupply.mem_taken_iff, not_not] at hfree
      exact ⟨.inl hfree, rfl, isNameOn_base base⟩
  | candidate _ hindex hfree _ =>
      rw [NameSupply.mem_taken_iff, not_not] at hfree
      exact ⟨.inr ⟨_, hindex, hfree⟩, rfl, isNameOn_candidate base _⟩
  | exhausted hpreferred hcandidates =>
      refine ⟨?_, _, rfl⟩
      rintro (hfree | ⟨index, hlt, hfree⟩)
      · exact NameSupply.mem_taken_iff.1 (hpreferred _ rfl) hfree
      · exact NameSupply.mem_taken_iff.1 (hcandidates index hlt) hfree

theorem tells_takeNames {α β : Type} (base : α → String) (make : α → ClassName → β) {xs : List α}
    (hapart : xs.Pairwise fun x y => BasesApart (base x) (base y)) (before : Assignment) :
    Tells before
      (fun _ after => (∀ x ∈ xs, HasRoom (fun name => before.names.isFree name = true) (base x)) ∧
        after.project = before.project ∧
        ∀ other, (∀ x ∈ xs, BasesApart (base x) other) →
          (HasRoom (fun name => after.names.isFree name = true) other ↔
            HasRoom (fun name => before.names.isFree name = true) other))
      (fun failure _ =>
        (¬ ∀ x ∈ xs, HasRoom (fun name => before.names.isFree name = true) (base x)) ∧
          ∃ text, failure = .nameExhausted text)
      (xs.mapM fun x => do
        let name ← takeName fun supply => supply.uniqueOrIndexed (base x)
        return make x name) := by
  induction xs generalizing before with
  | nil => exact ⟨nofun, rfl, fun _ _ => .rfl⟩
  | cons x xs ih =>
      obtain ⟨hfirst, hrest⟩ := List.pairwise_cons.1 hapart
      rw [List.mapM_cons, bind_assoc]
      refine (tells_takeName before (base x)).bind_of_stops ?_ ?_
      · rintro failure after ⟨hfull, hfailure⟩
        exact ⟨fun hroom => hfull (hroom x (List.mem_cons_self ..)), hfailure⟩
      · rintro name _ ⟨hroom, rfl, hon⟩
        -- The name that was taken is on the base of `x`, and so on none of the later ones.
        have hkept : ∀ other, BasesApart (base x) other →
            (HasRoom (fun other => (before.names.take name).isFree other = true) other ↔
              HasRoom (fun name => before.names.isFree name = true) other) :=
          fun other hother => NameSupply.hasRoom_take (hother name hon)
        rw [pure_bind]
        refine (ih hrest _).bind_of_stops ?_ ?_
        · rintro failure after ⟨hfull, hfailure⟩
          refine ⟨fun hall => hfull fun y hy => ?_, hfailure⟩
          exact (hkept _ (hfirst y hy)).2 (hall y (List.mem_cons_of_mem _ hy))
        · rintro made after ⟨hall, hproject, hothers⟩
          refine .pure ⟨fun y hy => ?_, hproject, fun other hother => ?_⟩
          · rcases List.mem_cons.1 hy with rfl | hy
            · exact hroom
            · exact (hkept _ (hfirst y hy)).1 (hall y hy)
          · obtain ⟨hhead, htail⟩ := List.forall_mem_cons.1 hother
            exact (hothers other htail).trans (hkept other hhead)

end Assigning

/-! ## The helpers of a plan -/

namespace ClassPath

/-- The class stands in the type of a key, and other packages cannot see it. -/
def Hides (path : ClassPath) (keys : Key → Prop) (name : ClassName) : Prop :=
  path.isHidden name = true ∧ ∃ key, keys key ∧ .object name ∈ key.type.mentioned

theorem mem_hiddenClasses {path : ClassPath} {keys : List Key} {name : ClassName} :
    name ∈ path.hiddenClasses keys ↔ path.Hides (· ∈ keys) name := by
  have hobject : ∀ type : Descriptor, type.asObject? = some name ↔ type = .object name := by
    intro type
    cases type <;> simp [Descriptor.asObject?]
  rw [hiddenClasses, Hides, List.mem_filter, and_comm, List.mem_filterMap]
  simp only [List.mem_flatMap, hobject, exists_eq_right]

end ClassPath

namespace Assigning

/-- There is room for an invader of each package with a hidden class, and for the registry. -/
def RoomForHelpers (path : ClassPath) (project : String) (keys : Key → Prop)
    (free : ClassName → Prop) : Prop :=
  (∀ name, path.Hides keys name →
    HasRoom free (PackageInvader.baseName name.packageName project)) ∧
      HasRoom free (KeyRegistry.baseName project)

theorem roomForHelpers_congr {path : ClassPath} {project : String} {keys others : Key → Prop}
    {free other : ClassName → Prop} (hkeys : ∀ key, keys key ↔ others key)
    (hfree : ∀ name, free name ↔ other name) :
    RoomForHelpers path project keys free ↔ RoomForHelpers path project others other := by
  rw [funext fun key => propext (hkeys key), funext fun name => propext (hfree name)]

theorem tells_composeHelpers (path : ClassPath) (keys : List Key) {before : Assignment}
    (hproject : '$' ∉ before.project.toList) :
    Tells before
      (fun _ _ => RoomForHelpers path before.project (· ∈ keys) fun name =>
        before.names.isFree name = true)
      (fun failure _ => (¬ RoomForHelpers path before.project (· ∈ keys) fun name =>
        before.names.isFree name = true) ∧ ∃ text, failure = .nameExhausted text)
      (do
        let invaders ← composeInvaders path keys
        let registry ← composeRegistry keys
        return (invaders, registry)) := by
  -- Names for one package do not use up those for another.
  have hpackages : ((Table.group ClassName.packageName
      (firsts id (path.hiddenClasses keys))).entries).Pairwise fun entry other =>
        BasesApart (PackageInvader.baseName entry.1 before.project)
          (PackageInvader.baseName other.1 before.project) := by
    have hkeys := (Table.group ClassName.packageName (firsts id (path.hiddenClasses keys))).distinct
    exact (List.pairwise_map.1 hkeys).imp (PackageInvader.basesApart hproject)
  have hhidden : (∀ entry ∈ (Table.group ClassName.packageName
      (firsts id (path.hiddenClasses keys))).entries,
        HasRoom (fun name => before.names.isFree name = true)
          (PackageInvader.baseName entry.1 before.project)) ↔
      ∀ name, path.Hides (· ∈ keys) name → HasRoom (fun name => before.names.isFree name = true)
        (PackageInvader.baseName name.packageName before.project) := by
    simp only [Prod.forall, Table.mem_entries_group, List.mem_map, mem_firsts_id,
      ← ClassPath.mem_hiddenClasses]
    constructor
    · exact fun h name hname => h _ _ ⟨⟨name, hname, rfl⟩, rfl⟩
    · rintro h _ _ ⟨⟨name, hname, rfl⟩, -⟩
      exact h name hname
  have hinvaders := tells_takeNames
    (fun entry : String × List ClassName => PackageInvader.baseName entry.1 before.project)
    (fun entry name => (⟨name, entry.1, invaderFields entry.2⟩ : PackageInvader)) hpackages before
  rw [hhidden] at hinvaders
  refine (Tells.bind_get hinvaders).bind_of_stops ?_ ?_
  · rintro failure after ⟨hfull, hfailure⟩
    exact ⟨fun hroom => hfull hroom.1, hfailure⟩
  · rintro invaders between ⟨hroom, hsame, hkept⟩
    have hregistry := hkept (KeyRegistry.baseName before.project) fun entry _ =>
      PackageInvader.basesApart_registry hproject entry.1
    unfold composeRegistry
    rw [bind_assoc]
    refine .bind_get ?_
    rw [hsame, bind_assoc]
    refine (tells_takeName between _).bind_of_stops ?_ ?_
    · rintro failure after ⟨hfull, hfailure⟩
      exact ⟨fun hroom => hfull (hregistry.2 hroom.2), hfailure⟩
    · rintro name after ⟨hfree, -, -⟩
      exact .pure ⟨hroom, hregistry.1 hfree⟩

theorem tells_composeHelpers_iff (path : ClassPath) {keys : List Key} {needed : Key → Prop}
    (hkeys : ∀ key, key ∈ keys ↔ needed key) {before : Assignment} {project : String}
    (hsame : before.project = project) (hproject : '$' ∉ project.toList) {free : ClassName → Prop}
    (hfree : ∀ name, before.names.isFree name = true ↔ free name) :
    Tells before (fun _ _ => RoomForHelpers path project needed free)
      (fun failure _ => ¬ RoomForHelpers path project needed free ∧
        ∃ text, failure = .nameExhausted text)
      (do
        let invaders ← composeInvaders path keys
        let registry ← composeRegistry keys
        return (invaders, registry)) := by
  subst hsame
  have hhelpers := tells_composeHelpers path keys hproject
  rwa [roomForHelpers_congr hkeys hfree] at hhelpers

end Assigning

end InjectionCompiler
