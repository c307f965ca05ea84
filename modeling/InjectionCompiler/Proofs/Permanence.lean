import InjectionCompiler.Proofs.Firsts
import InjectionCompiler.Proofs.Range

/-!
# Ids are for good

An arena can be written to in two ways: an entity is stored under its name, or the entity behind an
id is changed.  Whatever is written, a name keeps the id that it got first, the ids count the names
in the order of their first insertion, and behind an id stands what was stored last under its name,
with the later changes.
-/

namespace InjectionCompiler.Arena

variable {entity : Entity} {α : Type} {arena : Arena entity α}

/-! ## Operations -/

inductive Operation (entity : Entity) (α : Type) where
  | insert (name : ClassName) (item : α)
  | modify (id : Id entity) (change : α → α)

def apply (arena : Arena entity α) : Operation entity α → Arena entity α
  | .insert name item => (arena.insert name item).2
  | .modify id change => arena.modify id change

/-- The arena that a sequence of operations makes of the empty one. -/
def run (operations : List (Operation entity α)) : Arena entity α :=
  operations.foldl apply ∅

namespace Operation

def inserted? : Operation entity α → Option ClassName
  | .insert name _ => some name
  | .modify _ _ => none

/-- The id that an operation works on. -/
def target (arena : Arena entity α) : Operation entity α → Id entity
  | .insert name item => (arena.insert name item).1
  | .modify id _ => id

/-- What an operation makes of the item that stands under a name and behind its id. -/
def effect (name : ClassName) (id : Id entity) (held : Option α) : Operation entity α → Option α
  | .insert other item => if other = name then some item else held
  | .modify other change => if other = id then held.map change else held

end Operation

/-- The names under which something is stored, in order and with repetitions. -/
def insertedNames (operations : List (Operation entity α)) : List ClassName :=
  operations.filterMap Operation.inserted?

/-- The item that was stored last under a name, with the changes made behind its id since then. -/
def lastItem? (operations : List (Operation entity α)) (name : ClassName) (id : Id entity) :
    Option α :=
  operations.foldl (Operation.effect name id) none

theorem insertedNames_append_singleton (operations : List (Operation entity α))
    (operation : Operation entity α) : insertedNames (operations ++ [operation]) =
      insertedNames operations ++ operation.inserted?.toList := by
  rw [insertedNames, List.filterMap_append]
  cases operation <;> rfl

theorem run_append_singleton (operations : List (Operation entity α))
    (operation : Operation entity α) :
    run (operations ++ [operation]) = (run operations).apply operation := by
  simp [run]

/-! ## Names and ids -/

theorem names_apply (arena : Arena entity α) (operation : Operation entity α) :
    (arena.apply operation).names =
      match operation.inserted? with
      | some name => if name ∈ arena.names then arena.names else arena.names ++ [name]
      | none => arena.names := by
  cases operation with
  | insert name item => exact Table.keys_insert ..
  | modify id change => exact Table.map_fst_modifyEntries ..

theorem find?_eq_some_iff {name : ClassName} {id : Id entity} :
    arena.find? name = some id ↔ arena.nameOf? id = some name := by
  refine ⟨nameOf?_of_find?, fun h => ?_⟩
  have hmem : name ∈ arena.names := List.mem_of_getElem? h
  obtain ⟨found, hfound⟩ : ∃ found, arena.find? name = some found :=
    Option.ne_none_iff_exists'.1 fun hnone => not_mem_names_of_find? hnone hmem
  have hlt := (List.getElem?_eq_some_iff.1 h).1
  have hindex : id.index = found.index :=
    (List.getElem?_inj hlt arena.table.distinct).1 (h.trans (nameOf?_of_find? hfound).symm)
  cases id
  cases found
  rw [hfound]
  exact congrArg (fun index => some (Id.mk index)) hindex.symm

theorem nameOf?_insert_self (arena : Arena entity α) (name : ClassName) (item : α) :
    (arena.insert name item).2.nameOf? (arena.insert name item).1 = some name :=
  nameOf?_of_find? (arena.find?_insert_self name item)

theorem nameOf?_apply {id : Id entity} {name : ClassName} (h : arena.nameOf? id = some name)
    (operation : Operation entity α) : (arena.apply operation).nameOf? id = some name := by
  have hlt := (List.getElem?_eq_some_iff.1 h).1
  change (arena.apply operation).names[id.index]? = some name
  rw [names_apply]
  split
  · split
    · exact h
    · exact (List.getElem?_append_left hlt).trans h
  · exact h

theorem nameOf?_foldl_apply {id : Id entity} {name : ClassName}
    (operations : List (Operation entity α)) (h : arena.nameOf? id = some name) :
    (operations.foldl apply arena).nameOf? id = some name := by
  induction operations generalizing arena with
  | nil => exact h
  | cons operation operations ih => exact ih (nameOf?_apply h operation)

theorem nameOf?_of_apply {id : Id entity} {name : ClassName} (operation : Operation entity α)
    (h : (arena.apply operation).nameOf? id = some name)
    (hother : operation.inserted? ≠ some name) :
    arena.nameOf? id = some name := by
  change (arena.apply operation).names[id.index]? = some name at h
  rw [names_apply] at h
  split at h
  · next stored hstored =>
      split at h
      · exact h
      · rw [List.getElem?_append] at h
        split at h
        · exact h
        · have hsame : stored = name := List.mem_singleton.1 (List.mem_of_getElem? h) ▸ rfl
          exact absurd (hsame ▸ hstored) hother
  · exact h

theorem names_run (operations : List (Operation entity α)) :
    (run operations).names = firsts id (insertedNames operations) := by
  induction operations using List.reverseRecOn with
  | nil => rfl
  | append_singleton operations operation ih =>
      rw [run_append_singleton, names_apply, ih, insertedNames_append_singleton]
      cases operation with
      | insert name item =>
          simp only [Operation.inserted?, Option.toList_some, firsts_id_append_singleton,
            mem_firsts_id]
      | modify id change => simp [Operation.inserted?]

/-! ## Items -/

theorem get?_eq_bind (arena : Arena entity α) (id : Id entity) :
    arena.get? id = (arena.nameOf? id).bind arena.named? := by
  cases hname : arena.nameOf? id with
  | some name =>
      obtain ⟨item, hget, hnamed⟩ := exists_get?_of_nameOf? hname
      rw [hget, Option.bind_some, hnamed]
  | none =>
      cases hget : arena.get? id with
      | none => rfl
      | some item =>
          obtain ⟨name, hkey, -⟩ := named?_of_get? hget
          rw [nameOf?, hkey] at hname
          cases hname

theorem get?_insert_self (arena : Arena entity α) (name : ClassName) (item : α) :
    (arena.insert name item).2.get? (arena.insert name item).1 = some item := by
  rw [get?_eq_bind, nameOf?_insert_self, Option.bind_some]
  simp [named?, insert, Table.find?_insert]

theorem index_eq_iff {id other : Id entity} : id.index = other.index ↔ id = other := by
  cases id
  cases other
  simp

theorem get?_apply_of_ne {operation : Operation entity α} {id : Id entity}
    (hne : id ≠ operation.target arena) : (arena.apply operation).get? id = arena.get? id := by
  cases operation with
  | modify other change =>
      have hindex : other.index ≠ id.index := fun heq => hne (index_eq_iff.1 heq).symm
      simp [apply, get?_modify, hindex]
  | insert name item =>
      rw [get?_eq_bind, get?_eq_bind arena]
      cases hafter : (arena.apply (.insert name item)).nameOf? id with
      | some other =>
          have hother : other ≠ name := by
            rintro rfl
            have hfind := find?_eq_some_iff.2 hafter
            rw [apply, find?_insert_self] at hfind
            exact hne (Option.some.inj hfind).symm
          have hbefore := nameOf?_of_apply (.insert name item) hafter
            (by simpa [Operation.inserted?] using hother.symm)
          rw [hbefore]
          simp [named?, apply, insert, Table.find?_insert, hother]
      | none =>
          cases hbefore : arena.nameOf? id with
          | none => rfl
          | some other =>
              rw [nameOf?_apply hbefore] at hafter
              cases hafter

theorem get?_run {operations : List (Operation entity α)} {name : ClassName} {id : Id entity}
    (h : (run operations).nameOf? id = some name) :
    (run operations).get? id = lastItem? operations name id := by
  -- Induction on the run, from its last operation backwards.
  induction operations using List.reverseRecOn with
  | nil => cases h
  | append_singleton operations operation ih =>
      rw [run_append_singleton] at h ⊢
      rw [lastItem?, List.foldl_append, List.foldl_cons, List.foldl_nil, ← lastItem?]
      cases operation with
      | insert other item =>
          by_cases hother : other = name
          · subst hother
            have hid := find?_eq_some_iff.2 h
            rw [apply, find?_insert_self] at hid
            rw [← Option.some.inj hid, apply, get?_insert_self]
            simp [Operation.effect]
          · have hne : id ≠ (Operation.insert other item).target (run operations) := by
              rintro rfl
              exact hother (Option.some.inj ((nameOf?_insert_self ..).symm.trans h))
            have hbefore := nameOf?_of_apply (.insert other item) h
              (by simpa [Operation.inserted?] using hother)
            rw [get?_apply_of_ne hne, ih hbefore]
            simp [Operation.effect, hother]
      | modify other change =>
          have hbefore := nameOf?_of_apply (.modify other change) h (by simp [Operation.inserted?])
          rw [apply, get?_modify, ih hbefore]
          by_cases hother : other = id
          · simp [Operation.effect, hother]
          · simp [Operation.effect, hother, index_eq_iff]

/-! ## Enumeration -/

theorem mem_ids_iff {id : Id entity} : id ∈ arena.ids ↔ id.index < arena.size := by
  rw [ids, List.mem_map]
  constructor
  · rintro ⟨index, hindex, rfl⟩
    exact List.mem_range.1 hindex
  · exact fun h => ⟨id.index, List.mem_range.2 h, rfl⟩

theorem map_snd_entries (arena : Arena entity α) : arena.entries.map Prod.snd = arena.items := by
  refine List.map_snd_zip ?_
  simp [ids, items, size, Table.size, Table.values]

theorem map_some_items (arena : Arena entity α) :
    arena.items.map some = arena.ids.map arena.get? := by
  have hlength : arena.items.length = arena.size := by
    simp [items, size, Table.size, Table.values]
  refine List.ext_getElem (by simp [ids, hlength]) fun index hindex _ => ?_
  rw [List.length_map] at hindex
  have hget : arena.get? ⟨index⟩ = some arena.items[index] := List.getElem?_eq_getElem hindex
  simp [ids, hget]

/-! ## All together -/

/-- What holds of an arena after a sequence of operations. -/
structure Permanent (operations : List (Operation entity α)) : Prop where
  names : (run operations).names = firsts id (insertedNames operations)
  ids : (run operations).ids = (List.range (run operations).names.length).map Id.mk
  find_iff : ∀ name id,
    (run operations).find? name = some id ↔ (run operations).nameOf? id = some name
  /-- Every insertion of a name answers the id under which the name is found at the end. -/
  answered : ∀ before name item after, operations = before ++ .insert name item :: after →
    (run operations).find? name = some ((run before).insert name item).1
  items : ∀ name id, (run operations).find? name = some id →
    (run operations).get? id = lastItem? operations name id ∧
      (run operations).named? name = lastItem? operations name id
  absent : ∀ id, id ∉ (run operations).ids → (run operations).get? id = none
  /-- Whatever operation comes next, it leaves the items behind other ids. -/
  isolated : ∀ operation id, id ≠ operation.target (run operations) →
    (run (operations ++ [operation])).get? id = (run operations).get? id
  listed : (run operations).items.map some = (run operations).ids.map (run operations).get?
  paired : (run operations).entries.map Prod.fst = (run operations).ids ∧
    (run operations).entries.map Prod.snd = (run operations).items

theorem ids_permanent (operations : List (Operation entity α)) : Permanent operations where
  names := names_run operations
  ids := by
    rw [Arena.ids, ← length_keys]
    rfl
  find_iff _ _ := find?_eq_some_iff
  answered := by
    rintro before name item after rfl
    have hrun : run (before ++ .insert name item :: after) =
        after.foldl apply ((run before).insert name item).2 := by
      rw [run, List.foldl_append, List.foldl_cons]
      rfl
    rw [find?_eq_some_iff, hrun]
    exact nameOf?_foldl_apply after (nameOf?_insert_self ..)
  items := by
    intro name id hfind
    have hname := nameOf?_of_find? hfind
    have hget := get?_run hname
    refine ⟨hget, ?_⟩
    rw [← hget, get?_eq_bind, hname, Option.bind_some]
  absent := by
    intro id hid
    refine Option.eq_none_iff_forall_ne_some.2 fun item hitem => hid ?_
    exact mem_ids_iff.2 (exists_get?_iff.1 ⟨item, hitem⟩)
  isolated := by
    intro operation id hne
    rw [run_append_singleton]
    exact get?_apply_of_ne hne
  listed := map_some_items _
  paired := ⟨map_fst_entries _, map_snd_entries _⟩

end InjectionCompiler.Arena
