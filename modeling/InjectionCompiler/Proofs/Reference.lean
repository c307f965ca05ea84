import InjectionCompiler.Compilation
import InjectionCompiler.Proofs.Plan

/-!
# References to keys

Every key that a unit refers to is collected before the registry is composed.  So a key without a
slot is one that a class literal spells, and keys that differ once boxed are referred to in
different ways.
-/

namespace InjectionCompiler

/-! ## Slots -/

theorem Signature.asClass?_eq_some_iff {type : Signature} {name : ClassName} :
    type.asClass? = some name ↔ type = .ofClass name := by
  unfold asClass? ofClass
  split
  · simp
  · next h => exact iff_of_false (by simp) (h name)

def Key.IsClass (key : Key) (name : ClassName) : Prop :=
  key.boxed = .ofClass name

namespace KeySlot

theorem ofKey?_eq_none_iff {key : Key} {index : Nat} :
    ofKey? key index = none ↔ ∃ name, key.IsClass name := by
  unfold ofKey? Key.IsClass
  cases hqualifier : key.qualifier with
  | some qualifier => simp [Key.boxed, Key.ofClass, hqualifier]
  | none =>
      simp only [Option.isSome_none, Bool.false_eq_true, if_false]
      split
      · next h =>
          simp only [reduceCtorEq, false_iff, not_exists]
          intro name heq
          rw [heq] at h
          simp [Key.asClass?, Key.ofClass, Signature.asClass?, Signature.ofClass] at h
      · next h =>
          simp only [true_iff]
          obtain ⟨name, hname⟩ := Option.ne_none_iff_exists'.1 (by simpa using h)
          refine ⟨name, ?_⟩
          have htype := Signature.asClass?_eq_some_iff.1 hname
          simp [Key.ofClass, Key.boxed, hqualifier] at htype ⊢
          exact htype

theorem field_of_ofKey? {key : Key} {index : Nat} {slot : KeySlot}
    (h : ofKey? key index = some slot) : slot.field = "key" ++ toString index := by
  unfold ofKey? at h
  dsimp only at h
  split at h
  · cases h
    rfl
  · split at h
    · cases h
      rfl
    · cases h

end KeySlot

namespace Plan

theorem nodup_collectKeys (graph : ObjectGraph) (providers : List Provider)
    (contracts : List (Id .contract)) (factories : List (Id .factory)) :
    (collectKeys graph providers contracts factories).Nodup := by
  have hnodup := fun keys : List Key => nodup_map_firstsFrom id [] keys
  simp only [List.map_id] at hnodup
  exact hnodup _

theorem mem_collectKeys {graph : ObjectGraph} {providers : List Provider}
    {contracts : List (Id .contract)} {factories : List (Id .factory)} {key : Key} :
    key ∈ collectKeys graph providers contracts factories ↔
      key ∈ ((providers.flatMap (providerKeys graph) ++
        (contracts.filterMap graph.contracts.get?).flatMap contractKeys ++
        (factories.filterMap graph.factories.get?).flatMap factoryKeys).map Key.boxed) := by
  have hmem := @key_mem_map_firstsFrom _ _ _ (id : Key → Key) []
  simp only [List.map_id, List.not_mem_nil, not_false_eq_true, and_true] at hmem
  exact hmem

theorem mem_slotEntries {keys : List Key} {key : Key} {slot : KeySlot} :
    (key, slot) ∈ slotEntries keys ↔
      ∃ index, keys[index]? = some key ∧ KeySlot.ofKey? key index = some slot := by
  simp only [slotEntries, List.mem_filterMap, Prod.exists, List.mem_zipIdx_iff_getElem?,
    Option.map_eq_some_iff, Prod.mk.injEq]
  constructor
  · rintro ⟨other, index, hindex, held, hheld, rfl, rfl⟩
    exact ⟨index, hindex, hheld⟩
  · rintro ⟨index, hindex, hslot⟩
    exact ⟨key, index, hindex, slot, hslot, rfl, rfl⟩

theorem nodup_slotEntries {keys : List Key} (h : keys.Nodup) :
    ((slotEntries keys).map Prod.fst).Nodup := by
  rw [← List.zipIdx_map_fst 0 keys, List.Nodup, List.pairwise_map] at h
  rw [List.Nodup, List.pairwise_map, slotEntries, List.pairwise_filterMap]
  refine h.imp ?_
  rintro ⟨a, _⟩ ⟨b, _⟩ hne first hfirst second hsecond
  obtain ⟨x, -, rfl⟩ := Option.map_eq_some_iff.1 hfirst
  obtain ⟨y, -, rfl⟩ := Option.map_eq_some_iff.1 hsecond
  exact hne

/-! ## The keys that units refer to -/

/-- A key that some unit of the plan refers to. -/
inductive Resolves (graph : ObjectGraph) (plan : Plan) : Key → Prop where
  | own {provider : Provider} {key : Key} (hprovider : provider ∈ plan.providers)
      (hkey : provider.key? graph = some key) : Resolves graph plan key
  | injectee {provider : Provider} {point : ProvisionPoint} {injectee : Dependency}
      (hprovider : provider ∈ plan.providers) (hmedium : provider.medium = .provisionPoint point)
      (hinjectee : injectee ∈ point.injectees) : Resolves graph plan injectee.key
  | implementation {provider : Provider} {binding : Binding}
      (hprovider : provider ∈ plan.providers) (hmedium : provider.medium = .binding binding) :
      Resolves graph plan binding.implementation
  | contract {provider : Provider} {id : Id .contract} {lazy : Bool} {getter : Getter}
      {contract : Contract} (hprovider : provider ∈ plan.providers)
      (hmedium : provider.medium = .getter id lazy getter)
      (hcontract : graph.contracts.get? id = some contract) : Resolves graph plan contract.key
  | argument {id : Id .factory} {factory : Factory} {method : FactoryMethod}
      {dependency : Dependency} (hid : id ∈ plan.factories)
      (hfactory : graph.factories.get? id = some factory) (hmethod : method ∈ factory.methods)
      (hargument : .injected dependency ∈ method.arguments) : Resolves graph plan dependency.key
  | getter {id : Id .contract} {contract : Contract} {getter : Getter} (hid : id ∈ plan.contracts)
      (hcontract : graph.contracts.get? id = some contract) (hgetter : getter ∈ contract.getters) :
      Resolves graph plan getter.injectee.key

variable {graph : ObjectGraph} {plan : Plan}

theorem mem_keys_of_providerKeys {provider : Provider} (hprovider : provider ∈ plan.providers)
    {key : Key} (h : key ∈ providerKeys graph provider) : key.boxed ∈ plan.keys graph := by
  refine mem_collectKeys.2 (List.mem_map_of_mem (List.mem_append_left _ ?_))
  exact List.mem_append_left _ (List.mem_flatMap.2 ⟨provider, hprovider, h⟩)

theorem mem_keys_of_factoryKeys {id : Id .factory} (hid : id ∈ plan.factories) {factory : Factory}
    (hfactory : graph.factories.get? id = some factory) {key : Key}
    (h : key ∈ factoryKeys factory) : key.boxed ∈ plan.keys graph := by
  refine mem_collectKeys.2 (List.mem_map_of_mem (List.mem_append_right _ ?_))
  exact List.mem_flatMap.2 ⟨factory, List.mem_filterMap.2 ⟨id, hid, hfactory⟩, h⟩

theorem mem_keys_of_contractKeys {id : Id .contract} (hid : id ∈ plan.contracts)
    {contract : Contract} (hcontract : graph.contracts.get? id = some contract) {key : Key}
    (h : key ∈ contractKeys contract) : key.boxed ∈ plan.keys graph := by
  refine mem_collectKeys.2 (List.mem_map_of_mem (List.mem_append_left _ ?_))
  refine List.mem_append_right _ (List.mem_flatMap.2 ⟨contract, ?_, h⟩)
  exact List.mem_filterMap.2 ⟨id, hid, hcontract⟩

theorem Resolves.mem_keys {key : Key} (h : Resolves graph plan key) :
    key.boxed ∈ plan.keys graph := by
  cases h with
  | own hprovider hkey =>
      refine mem_keys_of_providerKeys hprovider (List.mem_append_left _ ?_)
      simp [hkey]
  | injectee hprovider hmedium hinjectee =>
      refine mem_keys_of_providerKeys hprovider (List.mem_append_right _ ?_)
      rw [hmedium]
      exact List.mem_map_of_mem hinjectee
  | implementation hprovider hmedium =>
      refine mem_keys_of_providerKeys hprovider (List.mem_append_right _ ?_)
      rw [hmedium]
      exact List.mem_singleton_self _
  | contract hprovider hmedium hcontract =>
      refine mem_keys_of_providerKeys hprovider (List.mem_append_right _ ?_)
      rw [hmedium]
      simp [hcontract]
  | argument hid hfactory hmethod hargument =>
      refine mem_keys_of_factoryKeys hid hfactory (List.mem_cons_of_mem _ ?_)
      refine List.mem_flatMap.2 ⟨_, hmethod, List.mem_map_of_mem ?_⟩
      exact List.mem_filterMap.2 ⟨_, hargument, rfl⟩
  | getter hid hcontract hgetter =>
      exact mem_keys_of_contractKeys hid hcontract
        (List.mem_cons_of_mem _ (List.mem_map_of_mem hgetter))

/-! ## References -/

theorem referTo_congr {a b : Key} (h : a.boxed = b.boxed) : plan.referTo a = plan.referTo b := by
  simp only [referTo, KeyRegistry.find?, h]

section

variable {path : ClassPath} {assigned : Assignment} (hplan : plan.Complete path graph assigned)

include hplan

theorem find?_registry_iff {key : Key} {slot : KeySlot} :
    plan.registry.find? key = some slot ↔
      ∃ index, (plan.keys graph)[index]? = some key.boxed ∧
        KeySlot.ofKey? key.boxed index = some slot := by
  have hnodup : (plan.keys graph).Nodup := nodup_collectKeys ..
  rw [KeyRegistry.find?, Table.find?_eq_some_iff, hplan.slots_eq,
    Table.entries_ofList (nodup_slotEntries hnodup), mem_slotEntries]

theorem referTo_of_isClass {key : Key} {name : ClassName} (h : key.IsClass name) :
    ∃ invader, plan.referTo key = .ok (.classLiteral name invader) := by
  have hnone : plan.registry.find? key = none := by
    refine Option.eq_none_iff_forall_ne_some.2 fun slot hslot => ?_
    obtain ⟨index, -, hkey⟩ := (find?_registry_iff hplan).1 hslot
    have hclass : ∃ name, key.boxed.IsClass name := ⟨name, by rwa [Key.IsClass, Key.boxed_boxed]⟩
    rw [KeySlot.ofKey?_eq_none_iff.2 hclass] at hkey
    cases hkey
  have htype : key.boxed.type = .erased (.object name) := congrArg Key.type h
  simp only [referTo, hnone, htype, Signature.erasure, Assigning.elementClass,
    Descriptor.elementClass]
  exact ⟨_, rfl⟩

theorem referTo_of_not_isClass {key : Key} (hkey : key.boxed ∈ plan.keys graph)
    (h : ∀ name, ¬ key.IsClass name) :
    ∃ slot, plan.registry.find? key = some slot ∧
      plan.referTo key = .ok (.registry ⟨plan.registry.name, slot.field⟩) := by
  obtain ⟨index, hindex⟩ := List.getElem?_of_mem hkey
  have hsome : KeySlot.ofKey? key.boxed index ≠ none := by
    rw [Ne, KeySlot.ofKey?_eq_none_iff]
    rintro ⟨name, hname⟩
    exact h name (by rwa [Key.IsClass, Key.boxed_boxed] at hname)
  obtain ⟨slot, hslot⟩ := Option.ne_none_iff_exists'.1 hsome
  have hfind := (find?_registry_iff hplan).2 ⟨index, hindex, hslot⟩
  exact ⟨slot, hfind, by simp only [referTo, hfind]⟩

theorem boxed_eq_of_field_eq {a b : Key} {first second : KeySlot}
    (ha : plan.registry.find? a = some first) (hb : plan.registry.find? b = some second)
    (hfield : first.field = second.field) : a.boxed = b.boxed := by
  obtain ⟨i, hi, hfirst⟩ := (find?_registry_iff hplan).1 ha
  obtain ⟨j, hj, hsecond⟩ := (find?_registry_iff hplan).1 hb
  rw [KeySlot.field_of_ofKey? hfirst, KeySlot.field_of_ofKey? hsecond,
    String.append_right_inj] at hfield
  obtain rfl := toString_nat_injective hfield
  exact Option.some.inj (hi.symm.trans hj)

theorem boxed_eq_of_referTo_eq {a b : Key} (ha : a.boxed ∈ plan.keys graph)
    (hb : b.boxed ∈ plan.keys graph) (h : plan.referTo a = plan.referTo b) : a.boxed = b.boxed := by
  by_cases hclassA : ∃ name, a.IsClass name
  · obtain ⟨name, hname⟩ := hclassA
    obtain ⟨_, hreferA⟩ := referTo_of_isClass hplan hname
    by_cases hclassB : ∃ name, b.IsClass name
    · obtain ⟨other, hother⟩ := hclassB
      obtain ⟨_, hreferB⟩ := referTo_of_isClass hplan hother
      rw [hreferA, hreferB] at h
      cases h
      exact hname.trans hother.symm
    · obtain ⟨slot, -, hreferB⟩ := referTo_of_not_isClass hplan hb (not_exists.1 hclassB)
      rw [hreferA, hreferB] at h
      cases h
  · obtain ⟨first, hfirst, hreferA⟩ := referTo_of_not_isClass hplan ha (not_exists.1 hclassA)
    by_cases hclassB : ∃ name, b.IsClass name
    · obtain ⟨other, hother⟩ := hclassB
      obtain ⟨_, hreferB⟩ := referTo_of_isClass hplan hother
      rw [hreferA, hreferB] at h
      cases h
    · obtain ⟨second, hsecond, hreferB⟩ := referTo_of_not_isClass hplan hb (not_exists.1 hclassB)
      rw [hreferA, hreferB] at h
      injection h with h
      injection h with h
      injection h with _ hfield
      exact boxed_eq_of_field_eq hplan hfirst hsecond hfield

theorem isClass_of_referTo_eq {key : Key} (hkey : key.boxed ∈ plan.keys graph) {name : ClassName}
    {invader : Option FieldReference} (h : plan.referTo key = .ok (.classLiteral name invader)) :
    key.IsClass name := by
  by_cases hclass : ∃ name, key.IsClass name
  · obtain ⟨other, hother⟩ := hclass
    obtain ⟨_, hrefer⟩ := referTo_of_isClass hplan hother
    rw [hrefer] at h
    cases h
    exact hother
  · obtain ⟨slot, -, hrefer⟩ := referTo_of_not_isClass hplan hkey (not_exists.1 hclass)
    rw [hrefer] at h
    cases h

theorem exists_referTo {key : Key} (hkey : key.boxed ∈ plan.keys graph) :
    ∃ reference, plan.referTo key = .ok reference := by
  by_cases hclass : ∃ name, key.IsClass name
  · obtain ⟨name, hname⟩ := hclass
    obtain ⟨_, hrefer⟩ := referTo_of_isClass hplan hname
    exact ⟨_, hrefer⟩
  · obtain ⟨slot, -, hrefer⟩ := referTo_of_not_isClass hplan hkey (not_exists.1 hclass)
    exact ⟨_, hrefer⟩

end

end Plan

end InjectionCompiler
