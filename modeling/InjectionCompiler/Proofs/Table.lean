import InjectionCompiler.Table
import Mathlib.Data.List.Forall2
import Mathlib.Data.List.Induction
import Mathlib.Data.List.Nodup

/-!
# What tables hold

A table is known by its look-ups: each operation is described by what is found afterwards under
each key.
-/

namespace InjectionCompiler

theorem exists_right_of_forall₂ {α β : Type} {Related : α → β → Prop} {xs : List α} {ys : List β}
    (h : List.Forall₂ Related xs ys) {x : α} (hx : x ∈ xs) : ∃ y ∈ ys, Related x y := by
  induction h with
  | nil => cases hx
  | cons hhead _ ih =>
      rcases List.mem_cons.1 hx with rfl | hrest
      · exact ⟨_, List.mem_cons_self .., hhead⟩
      · obtain ⟨y, hy, hrelated⟩ := ih hrest
        exact ⟨y, List.mem_cons_of_mem _ hy, hrelated⟩

theorem exists_left_of_forall₂ {α β : Type} {Related : α → β → Prop} {xs : List α} {ys : List β}
    (h : List.Forall₂ Related xs ys) {y : β} (hy : y ∈ ys) : ∃ x ∈ xs, Related x y :=
  exists_right_of_forall₂ h.flip hy

theorem getElem?_of_forall₂ {α β : Type} {Related : α → β → Prop} {xs : List α} {ys : List β}
    (h : List.Forall₂ Related xs ys) {index : Nat} {x : α} (hx : xs[index]? = some x) :
    ∃ y, ys[index]? = some y ∧ Related x y := by
  induction h generalizing index with
  | nil => cases hx
  | cons hhead _ ih =>
      cases index with
      | zero =>
          cases hx
          exact ⟨_, rfl, hhead⟩
      | succ index => exact ih hx

theorem mem_of_lookup {κ α : Type} [DecidableEq κ] {entries : List (κ × α)} {key : κ} {item : α}
    (h : entries.lookup key = some item) : (key, item) ∈ entries := by
  obtain ⟨before, after, rfl, -⟩ := List.lookup_eq_some_iff.1 h
  exact List.mem_append_right _ (List.mem_cons_self ..)

theorem rel_option_imp {α β : Type} {Related Wanted : α → β → Prop}
    (h : ∀ x y, Related x y → Wanted x y) {x : Option α} {y : Option β}
    (hrelated : Option.Rel Related x y) : Option.Rel Wanted x y := by
  cases hrelated with
  | none => exact .none
  | some hsome => exact .some (h _ _ hsome)

theorem eq_map_of_forall₂ {α β : Type} {change : α → β} {xs : List α} {ys : List β}
    (h : List.Forall₂ (fun x y => y = change x) xs ys) : ys = xs.map change := by
  induction h with
  | nil => rfl
  | cons hhead _ ih => rw [List.map_cons, ← hhead, ← ih]

theorem map_filterMap_sublist {α β κ : Type} {change : α → Option β} {key : α → κ} {newKey : β → κ}
    (h : ∀ x y, change x = some y → newKey y = key x) (xs : List α) :
    ((xs.filterMap change).map newKey).Sublist (xs.map key) := by
  induction xs with
  | nil => exact .slnil
  | cons x xs ih =>
      cases hx : change x with
      | none =>
          rw [List.filterMap_cons_none hx]
          exact ih.cons _
      | some y =>
          rw [List.filterMap_cons_some hx, List.map_cons, List.map_cons, h x y hx]
          exact ih.cons_cons _

theorem filter_eq_singleton {α κ : Type} [DecidableEq κ] {key : α → κ} {xs : List α}
    (hnodup : (xs.map key).Nodup) {x : α} (hx : x ∈ xs) :
    xs.filter (fun y => key y = key x) = [x] := by
  induction xs with
  | nil => cases hx
  | cons y ys ih =>
      rw [List.map_cons, List.nodup_cons] at hnodup
      rcases List.mem_cons.1 hx with rfl | hmem
      · have hrest : ys.filter (fun y => key y = key x) = [] := by
          refine List.filter_eq_nil_iff.2 fun z hz heq => hnodup.1 ?_
          exact List.mem_map.2 ⟨z, hz, by simpa using heq⟩
        rw [List.filter_cons_of_pos (by simp), hrest]
      · have hne : key y ≠ key x := fun heq => hnodup.1 (heq ▸ List.mem_map_of_mem hmem)
        rw [List.filter_cons_of_neg (by simpa using hne), ih hnodup.2 hmem]

namespace Table

variable {κ α : Type} [DecidableEq κ]

omit [DecidableEq κ] in
@[simp] theorem entries_empty : (∅ : Table κ α).entries = [] := rfl

@[simp] theorem find?_empty (key : κ) : (∅ : Table κ α).find? key = none := rfl

theorem find?_eq_some_iff {table : Table κ α} {key : κ} {item : α} :
    table.find? key = some item ↔ (key, item) ∈ table.entries := by
  constructor
  · exact mem_entries_of_find?
  · intro h
    have hsome : (table.find? key).isSome :=
      (find?_isSome_iff table key).2 (List.mem_map.2 ⟨_, h, rfl⟩)
    obtain ⟨other, hother⟩ := Option.isSome_iff_exists.1 hsome
    have hsame := List.inj_on_of_nodup_map table.distinct (mem_entries_of_find? hother) h rfl
    rw [hother, (Prod.mk.inj hsame).2]

/-! ## Putting items -/

theorem find?_putEntries (key : κ) (fresh : α) (change : α → α) (entries : List (κ × α))
    (other : κ) :
    ((putEntries key fresh change entries).find? fun entry => entry.1 = other).map Prod.snd =
      if other = key then
        some (((entries.find? fun entry => entry.1 = key).map Prod.snd).elim fresh change)
      else (entries.find? fun entry => entry.1 = other).map Prod.snd := by
  induction entries with
  | nil =>
      by_cases h : other = key
      · simp [putEntries, h]
      · simp [putEntries, h, Ne.symm h]
  | cons entry rest ih =>
      obtain ⟨first, held⟩ := entry
      by_cases hfirst : first = key
      · subst hfirst
        by_cases h : other = first
        · simp [putEntries, h]
        · simp [putEntries, h, Ne.symm h]
      · by_cases hother : first = other
        · subst hother
          simp [putEntries, hfirst]
        · simp only [putEntries, hfirst, if_false, List.find?_cons, hother, decide_false]
          exact ih

theorem find?_alter (table : Table κ α) (key other : κ) (fresh : α) (change : α → α) :
    (table.alter key fresh change).find? other =
      if other = key then some ((table.find? key).elim fresh change) else table.find? other :=
  find?_putEntries key fresh change table.entries other

theorem find?_insert (table : Table κ α) (key other : κ) (item : α) :
    (table.insert key item).find? other = if other = key then some item else table.find? other := by
  rw [insert, find?_alter]
  cases table.find? key <;> rfl

theorem isSome_find?_insert {table : Table κ α} {key other : κ} {item : α}
    (h : (table.find? other).isSome) : ((table.insert key item).find? other).isSome := by
  rw [find?_insert]
  split
  · rfl
  · exact h

theorem putEntries_of_not_mem {key : κ} {fresh : α} {change : α → α} {entries : List (κ × α)}
    (h : key ∉ entries.map Prod.fst) :
    putEntries key fresh change entries = entries ++ [(key, fresh)] := by
  induction entries with
  | nil => rfl
  | cons entry rest ih =>
      obtain ⟨other, held⟩ := entry
      simp only [List.map_cons, List.mem_cons, not_or] at h
      simp [putEntries, Ne.symm h.1, ih h.2]

theorem entries_insert_of_not_mem {table : Table κ α} {key : κ} {item : α}
    (h : key ∉ table.keys) : (table.insert key item).entries = table.entries ++ [(key, item)] :=
  putEntries_of_not_mem h

/-! ## Changing items -/

omit [DecidableEq κ] in
theorem values_modifyAt (table : Table κ α) (place : Nat) (change : α → α) :
    (table.modifyAt place change).values = table.values.modify place change := by
  change (modifyEntries change place table.entries).map Prod.snd =
    (table.entries.map Prod.snd).modify place change
  generalize table.entries = entries
  induction entries generalizing place with
  | nil => simp [modifyEntries]
  | cons entry rest ih =>
      cases place with
      | zero => rfl
      | succ place => simp [modifyEntries, ih]

omit [DecidableEq κ] in
theorem keys_mapValues {β : Type} (table : Table κ α) (change : α → β) :
    (table.mapValues change).keys = table.keys :=
  map_fst_map change table.entries

theorem find?_mapValues {β : Type} (table : Table κ α) (change : α → β) (key : κ) :
    (table.mapValues change).find? key = (table.find? key).map change := by
  simp only [find?, mapValues, List.find?_map, Option.map_map, Function.comp_def]

omit [DecidableEq κ] in
@[simp] theorem values_mapValues {β : Type} (table : Table κ α) (change : α → β) :
    (table.mapValues change).values = table.values.map change := by
  simp [values, mapValues]

theorem mapValues_alter {β : Type} (table : Table κ α) (key : κ) (fresh : α) {change : α → α}
    {other : β → β} {map : α → β} (h : ∀ x, map (change x) = other (map x)) :
    (table.alter key fresh change).mapValues map =
      (table.mapValues map).alter key (map fresh) other := by
  have hput : ∀ entries : List (κ × α),
      (putEntries key fresh change entries).map (fun entry => (entry.1, map entry.2)) =
        putEntries key (map fresh) other (entries.map fun entry => (entry.1, map entry.2)) := by
    intro entries
    induction entries with
    | nil => rfl
    | cons entry rest ih =>
        obtain ⟨first, held⟩ := entry
        by_cases hfirst : first = key
        · simp [putEntries, hfirst, h]
        · simp [putEntries, hfirst, ih]
  simp only [mapValues, alter, hput]

theorem mapValues_insert {β : Type} (table : Table κ α) (key : κ) (item : α) (map : α → β) :
    (table.insert key item).mapValues map = (table.mapValues map).insert key (map item) :=
  mapValues_alter table key item fun _ => rfl

/-! ## Tables made of lists -/

private theorem entries_foldl_insert (entries : List (κ × α)) (table : Table κ α)
    (h : ((table.entries ++ entries).map Prod.fst).Nodup) :
    (entries.foldl (fun table (key, item) => table.insert key item) table).entries =
      table.entries ++ entries := by
  induction entries generalizing table with
  | nil => simp
  | cons entry rest ih =>
      have hnew : entry.1 ∉ table.keys := by
        intro hmem
        rw [List.map_append, List.nodup_append] at h
        exact h.2.2 entry.1 hmem entry.1 (by simp) rfl
      have hentries : (table.insert entry.1 entry.2).entries = table.entries ++ [entry] :=
        entries_insert_of_not_mem hnew
      rw [List.foldl_cons, ih]
      · rw [hentries, List.append_assoc, List.singleton_append]
      · rw [hentries, List.append_assoc, List.singleton_append]
        exact h

theorem entries_ofList {entries : List (κ × α)} (h : (entries.map Prod.fst).Nodup) :
    (ofList entries).entries = entries := by
  rw [ofList, entries_foldl_insert entries ∅ (by simpa using h)]
  rfl

theorem ofList_append_singleton (entries : List (κ × α)) (entry : κ × α) :
    ofList (entries ++ [entry]) = (ofList entries).insert entry.1 entry.2 := by
  simp [ofList]

theorem mapValues_ofList {β : Type} (entries : List (κ × α)) (map : α → β) :
    (ofList entries).mapValues map =
      ofList (entries.map fun entry => (entry.1, map entry.2)) := by
  induction entries using List.reverseRecOn with
  | nil => rfl
  | append_singleton entries entry ih =>
      rw [List.map_append, List.map_singleton, ofList_append_singleton, ofList_append_singleton,
        mapValues_insert, ih]

theorem mem_values_of_find? {table : Table κ α} {key : κ} {item : α}
    (h : table.find? key = some item) : item ∈ table.values :=
  List.mem_map.2 ⟨_, mem_entries_of_find? h, rfl⟩

theorem mem_of_find?_ofList {entries : List (κ × α)} {key : κ} {item : α}
    (h : (ofList entries).find? key = some item) : (key, item) ∈ entries := by
  induction entries using List.reverseRecOn with
  | nil => cases h
  | append_singleton entries entry ih =>
      rw [ofList_append_singleton, find?_insert] at h
      split at h
      · next heq =>
          cases h
          rw [heq]
          exact List.mem_append_right _ (List.mem_singleton_self _)
      · exact List.mem_append_left _ (ih h)

omit [DecidableEq κ] in
theorem map_fst_of_forall₂ {β : Type} {nameOf : β → κ} {Related : β → α → Prop} {xs : List β}
    {entries : List (κ × α)}
    (h : List.Forall₂ (fun x entry => entry.1 = nameOf x ∧ Related x entry.2) xs entries) :
    entries.map Prod.fst = xs.map nameOf := by
  induction h with
  | nil => rfl
  | cons hhead _ ih => rw [List.map_cons, List.map_cons, hhead.1, ih]

theorem find?_ofList_of_forall₂ {β : Type} {nameOf : β → κ} {Related : β → α → Prop} {xs : List β}
    {entries : List (κ × α)}
    (h : List.Forall₂ (fun x entry => entry.1 = nameOf x ∧ Related x entry.2) xs entries)
    (hnodup : (xs.map nameOf).Nodup) {x : β} (hx : x ∈ xs) :
    ∃ item, (ofList entries).find? (nameOf x) = some item ∧ Related x item := by
  obtain ⟨⟨name, item⟩, hmem, rfl, hrelated⟩ := exists_right_of_forall₂ h hx
  refine ⟨item, ?_, hrelated⟩
  rw [find?_eq_some_iff, entries_ofList]
  · exact hmem
  · rw [map_fst_of_forall₂ h]
    exact hnodup

theorem group_append_singleton (key : α → κ) (items : List α) (item : α) :
    group key (items ++ [item]) = (group key items).alter (key item) [item] (· ++ [item]) := by
  simp [group]

theorem find?_group (key : α → κ) (items : List α) (k : κ) :
    (group key items).find? k =
      if k ∈ items.map key then some (items.filter fun item => key item = k) else none := by
  induction items using List.reverseRecOn with
  | nil => rfl
  | append_singleton items item ih =>
      rw [group_append_singleton, find?_alter]
      by_cases hk : k = key item
      · subst hk
        by_cases hmem : key item ∈ items.map key
        · simp only [hmem, if_true] at ih
          simp [ih]
        · simp only [hmem, if_false] at ih
          have hnone : items.filter (fun other => key other = key item) = [] := by
            refine List.filter_eq_nil_iff.2 fun other hother heq => hmem ?_
            exact List.mem_map.2 ⟨other, hother, by simpa using heq⟩
          simp [ih, hnone]
      · have hne : key item ≠ k := Ne.symm hk
        simp [hk, ih, hne]

theorem group_map {β : Type} {key : β → κ} {map : α → β} (items : List α) :
    group key (items.map map) =
      (group (fun item => key (map item)) items).mapValues (List.map map) := by
  induction items using List.reverseRecOn with
  | nil => rfl
  | append_singleton items item ih =>
      rw [List.map_append, List.map_singleton, group_append_singleton, group_append_singleton, ih]
      have happend : ∀ held : List α, (held ++ [item]).map map = held.map map ++ [map item] :=
        fun held => List.map_append
      exact (@mapValues_alter κ (List α) _ (List β) (group (fun item => key (map item)) items)
        (key (map item)) [item] (· ++ [item]) (· ++ [map item]) (List.map map) happend).symm

theorem mem_entries_group {key : α → κ} {items : List α} {k : κ} {held : List α} :
    (k, held) ∈ (group key items).entries ↔
      k ∈ items.map key ∧ held = items.filter fun item => key item = k := by
  rw [← find?_eq_some_iff, find?_group]
  split
  · next h => simp only [Option.some.injEq, h, true_and, eq_comm]
  · next h => simp [h]

theorem perm_putEntries (key : κ) (item : α) (entries : List (κ × List α)) :
    ((putEntries key [item] (· ++ [item]) entries).map Prod.snd).flatten.Perm
      ((entries.map Prod.snd).flatten ++ [item]) := by
  induction entries with
  | nil => exact .refl _
  | cons entry rest ih =>
      obtain ⟨other, held⟩ := entry
      by_cases hkey : other = key
      · have hmoved : (item :: (rest.map Prod.snd).flatten).Perm
            ((rest.map Prod.snd).flatten ++ [item]) := (List.perm_append_singleton ..).symm
        simpa [putEntries, hkey] using hmoved.append_left held
      · simpa [putEntries, hkey] using ih.append_left held

theorem perm_flatten_group (key : α → κ) (items : List α) :
    (group key items).values.flatten.Perm items := by
  induction items using List.reverseRecOn with
  | nil => exact .refl _
  | append_singleton items item ih =>
      rw [group_append_singleton]
      exact (perm_putEntries (key item) item _).trans (ih.append_right [item])

end Table

end InjectionCompiler
