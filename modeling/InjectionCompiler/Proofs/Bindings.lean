import InjectionCompiler.Binding.Discovery
import InjectionCompiler.Proofs.Table

/-!
# Bindings by their implementations

The index of bindings has each of the declared bindings once, however often it is declared, and has
it under the boxed key of its implementation.
-/

namespace InjectionCompiler

namespace BindingIndex

def heldUnder (index : BindingIndex) (key : Key) : List Binding :=
  (Table.find? index key).getD []

theorem heldUnder_add (index : BindingIndex) (binding : Binding) (key : Key) :
    (index.add binding).heldUnder key =
      if key = binding.implementation.boxed ∧ binding ∉ index.heldUnder key then
        index.heldUnder key ++ [binding]
      else index.heldUnder key := by
  rw [heldUnder, add, Table.find?_alter, heldUnder]
  by_cases hkey : key = binding.implementation.boxed
  · subst hkey
    rw [if_pos rfl]
    cases Table.find? index binding.implementation.boxed with
    | none => simp
    | some held => by_cases hmem : binding ∈ held <;> simp [hmem]
  · rw [if_neg hkey, if_neg fun h => hkey h.1]

/-- The index has the declared bindings, each once and under its implementation. -/
structure Lists (index : BindingIndex) (declared : List Binding) : Prop where
  nodup : ∀ key, (index.heldUnder key).Nodup
  mem_iff : ∀ key binding, binding ∈ index.heldUnder key ↔
    binding ∈ declared ∧ binding.implementation.boxed = key

theorem lists_empty : Lists ∅ [] where
  nodup _ := List.nodup_nil
  mem_iff _ _ := iff_of_false List.not_mem_nil fun h => List.not_mem_nil h.1

theorem Lists.add {index : BindingIndex} {declared : List Binding} (h : index.Lists declared)
    (binding : Binding) : (index.add binding).Lists (declared ++ [binding]) := by
  refine ⟨fun key => ?_, fun key other => ?_⟩
  · rw [heldUnder_add]
    split
    · next hnew => exact List.nodup_append.2 ⟨h.nodup key, List.nodup_singleton _,
        fun _ hold _ hlast heq => hnew.2 (List.mem_singleton.1 hlast ▸ heq ▸ hold)⟩
    · exact h.nodup key
  · have hlast : other ∈ declared ++ [binding] ∧ other.implementation.boxed = key ↔
        other ∈ index.heldUnder key ∨ other = binding ∧ binding.implementation.boxed = key := by
      rw [h.mem_iff, List.mem_append, List.mem_singleton, or_and_right]
      refine or_congr_right (and_congr_right fun heq => ?_)
      rw [heq]
    rw [heldUnder_add, hlast]
    split
    · next hnew =>
        rw [List.mem_append, List.mem_singleton, hnew.1]
        simp
    · next hold =>
        refine (or_iff_left_of_imp ?_).symm
        rintro ⟨rfl, rfl⟩
        simpa using hold

theorem lists_foldl (declared : List Binding) :
    Lists (declared.foldl BindingIndex.add ∅) declared := by
  induction declared using List.reverseRecOn with
  | nil => exact lists_empty
  | append_singleton declared binding ih =>
      rw [List.foldl_append]
      exact ih.add binding

variable {index : BindingIndex} {declared : List Binding}

theorem Lists.mem_ofImplementation (h : index.Lists declared) {key : Key} {binding : Binding} :
    binding ∈ index.ofImplementation key ↔
      binding ∈ declared ∧ binding.implementation.boxed = key.boxed :=
  h.mem_iff key.boxed binding

theorem heldUnder_of_mem_entries {key : Key} {held : List Binding}
    (h : (key, held) ∈ Table.entries index) : index.heldUnder key = held := by
  rw [heldUnder, Table.find?_eq_some_iff.2 h]
  rfl

theorem Lists.mem_all (h : index.Lists declared) {binding : Binding} :
    binding ∈ index.all ↔ binding ∈ declared := by
  unfold all
  constructor
  · intro hmem
    obtain ⟨held, hheld, hbinding⟩ := List.mem_flatten.1 hmem
    obtain ⟨⟨key, _⟩, hentry, rfl⟩ := List.mem_map.1 hheld
    rw [← heldUnder_of_mem_entries hentry] at hbinding
    exact ((h.mem_iff key binding).1 hbinding).1
  · intro hdeclared
    have hmem := (h.mem_iff _ binding).2 ⟨hdeclared, rfl⟩
    rw [heldUnder] at hmem
    cases hfind : Table.find? index binding.implementation.boxed with
    | none =>
        rw [hfind] at hmem
        cases hmem
    | some held =>
        rw [hfind] at hmem
        exact List.mem_flatten.2 ⟨held, Table.mem_values_of_find? hfind, hmem⟩

theorem Lists.nodup_all (h : index.Lists declared) : index.all.Nodup := by
  unfold all
  refine List.nodup_flatten.2 ⟨fun held hheld => ?_, ?_⟩
  · obtain ⟨⟨key, _⟩, hentry, rfl⟩ := List.mem_map.1 hheld
    exact heldUnder_of_mem_entries hentry ▸ h.nodup key
  · have hkeys := index.distinct
    rw [List.Nodup, List.pairwise_map] at hkeys
    rw [Table.values, List.pairwise_map]
    refine hkeys.imp_of_mem fun {a b} ha hb hne binding hfirst hsecond => hne ?_
    rw [← heldUnder_of_mem_entries ha, h.mem_iff] at hfirst
    rw [← heldUnder_of_mem_entries hb, h.mem_iff] at hsecond
    exact hfirst.2.symm.trans hsecond.2

end BindingIndex

end InjectionCompiler
