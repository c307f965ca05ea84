/-!
# Tables

A table maps keys to items and remembers the order in which the keys first came.  Putting an item
under a known key replaces the item where it stands.
-/

namespace InjectionCompiler

structure Table (κ α : Type) where
  entries : List (κ × α)
  distinct : (entries.map Prod.fst).Nodup
  deriving DecidableEq, Repr

namespace Table

variable {κ α : Type} [DecidableEq κ]

def empty : Table κ α := ⟨[], .nil⟩

instance : EmptyCollection (Table κ α) := ⟨empty⟩

instance : Inhabited (Table κ α) := ⟨empty⟩

def keys (table : Table κ α) : List κ :=
  table.entries.map Prod.fst

def values (table : Table κ α) : List α :=
  table.entries.map Prod.snd

def size (table : Table κ α) : Nat :=
  table.entries.length

def find? (table : Table κ α) (key : κ) : Option α :=
  (table.entries.find? fun entry => entry.1 = key).map Prod.snd

def contains (table : Table κ α) (key : κ) : Bool :=
  table.keys.contains key

def position? (table : Table κ α) (key : κ) : Option Nat :=
  table.keys.idxOf? key

/-! ## Putting items -/

/-- Applies `change` to what is held under `key`, or appends `fresh` when nothing is. -/
def putEntries (key : κ) (fresh : α) (change : α → α) : List (κ × α) → List (κ × α)
  | [] => [(key, fresh)]
  | (other, held) :: rest =>
      if other = key then (other, change held) :: rest
      else (other, held) :: putEntries key fresh change rest

theorem map_fst_putEntries (key : κ) (fresh : α) (change : α → α) (entries : List (κ × α)) :
    (putEntries key fresh change entries).map Prod.fst =
      if key ∈ entries.map Prod.fst then entries.map Prod.fst
      else entries.map Prod.fst ++ [key] := by
  induction entries with
  | nil => simp [putEntries]
  | cons entry rest ih =>
      obtain ⟨other, held⟩ := entry
      by_cases h : other = key
      · simp [putEntries, h]
      · have h' : ¬ key = other := fun e => h e.symm
        simp only [putEntries, h, if_false, List.map_cons, ih, List.mem_cons, h', false_or]
        split <;> simp

theorem nodup_putEntries (key : κ) (fresh : α) (change : α → α) {entries : List (κ × α)}
    (h : (entries.map Prod.fst).Nodup) :
    ((putEntries key fresh change entries).map Prod.fst).Nodup := by
  rw [map_fst_putEntries]
  split
  · exact h
  · next hkey =>
      refine List.nodup_append.2 ⟨h, by simp, ?_⟩
      intro x hx y hy hxy
      simp only [List.mem_singleton] at hy
      exact hkey (hy ▸ hxy ▸ hx)

/-- Changes the item under `key`, which starts as `fresh` when the key is new. -/
def alter (table : Table κ α) (key : κ) (fresh : α) (change : α → α) : Table κ α :=
  ⟨putEntries key fresh change table.entries, nodup_putEntries key fresh change table.distinct⟩

def insert (table : Table κ α) (key : κ) (item : α) : Table κ α :=
  table.alter key item fun _ => item

def ofList (entries : List (κ × α)) : Table κ α :=
  entries.foldl (fun table (key, item) => table.insert key item) ∅

/-- The items of a list by a key of theirs, keys and items in the order of the list. -/
def group {α : Type} (key : α → κ) (items : List α) : Table κ (List α) :=
  items.foldl (fun table item => table.alter (key item) [item] (· ++ [item])) ∅

theorem keys_alter (table : Table κ α) (key : κ) (fresh : α) (change : α → α) :
    (table.alter key fresh change).keys =
      if key ∈ table.keys then table.keys else table.keys ++ [key] :=
  map_fst_putEntries key fresh change table.entries

theorem keys_insert (table : Table κ α) (key : κ) (item : α) :
    (table.insert key item).keys =
      if key ∈ table.keys then table.keys else table.keys ++ [key] :=
  keys_alter table key item _

theorem mem_keys_insert (table : Table κ α) (key other : κ) (item : α) :
    other ∈ (table.insert key item).keys ↔ other = key ∨ other ∈ table.keys := by
  rw [keys_insert]
  split <;> simp_all [or_comm]

/-! ## Changing the item at a place -/

def modifyEntries (change : α → α) : Nat → List (κ × α) → List (κ × α)
  | _, [] => []
  | 0, (key, held) :: rest => (key, change held) :: rest
  | place + 1, entry :: rest => entry :: modifyEntries change place rest

omit [DecidableEq κ] in
theorem map_fst_modifyEntries (change : α → α) (place : Nat) (entries : List (κ × α)) :
    (modifyEntries change place entries).map Prod.fst = entries.map Prod.fst := by
  induction entries generalizing place with
  | nil => simp [modifyEntries]
  | cons entry rest ih =>
      cases place with
      | zero => rfl
      | succ place => simp [modifyEntries, ih]

def modifyAt (table : Table κ α) (place : Nat) (change : α → α) : Table κ α :=
  ⟨modifyEntries change place table.entries, by
    rw [map_fst_modifyEntries]; exact table.distinct⟩

/-! ## Changing all items -/

omit [DecidableEq κ] in
theorem map_fst_map {β : Type} (change : α → β) (entries : List (κ × α)) :
    (entries.map fun entry => (entry.1, change entry.2)).map Prod.fst = entries.map Prod.fst := by
  simp

def mapValues {β : Type} (table : Table κ α) (change : α → β) : Table κ β :=
  ⟨table.entries.map fun entry => (entry.1, change entry.2), by
    rw [map_fst_map]; exact table.distinct⟩

/-! ## Look-up -/

theorem find?_isSome_iff (table : Table κ α) (key : κ) :
    (table.find? key).isSome ↔ key ∈ table.keys := by
  simp [find?, keys, List.find?_isSome]

theorem mem_entries_of_find? {table : Table κ α} {key : κ} {item : α}
    (h : table.find? key = some item) : (key, item) ∈ table.entries := by
  obtain ⟨entry, hentry, rfl⟩ := Option.map_eq_some_iff.1 h
  have hkey := List.find?_some hentry
  simp only [decide_eq_true_eq] at hkey
  obtain ⟨other, held⟩ := entry
  cases hkey
  exact List.mem_of_find?_eq_some hentry

theorem mem_keys_of_find? {table : Table κ α} {key : κ} {item : α}
    (h : table.find? key = some item) : key ∈ table.keys :=
  List.mem_map.2 ⟨_, mem_entries_of_find? h, rfl⟩

end Table

end InjectionCompiler
