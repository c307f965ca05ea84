import InjectionCompiler.Proofs.Ledger
import Mathlib.Data.Nat.Nth

/-!
# Numbering

The names of one owner and one kind are numbered on their own: the first name takes the smallest
number that no compiled class has, and each further one the next such number.  Patterns of another
owner or kind have no name in common with these.
-/

namespace InjectionCompiler

/-! ## Patterns that never meet -/

/-- The names of the providers of one owner and one kind. -/
def providerPattern (project : String) (owner : ClassName) (kind : String) : NamePattern :=
  ⟨owner.internal ++ "$" ++ kind, "$" ++ project⟩

/-- A kind of provider has no dollar sign and no digit, so that it can be told from what stands
around it in a name. -/
def IsPlainKind (kind : String) : Prop :=
  ∀ c ∈ kind.toList, c ≠ '$' ∧ c.isDigit = false

instance (kind : String) : Decidable (IsPlainKind kind) :=
  List.decidableBAll (fun c => c ≠ '$' ∧ c.isDigit = false) kind.toList

theorem isPlainKind_kind (provision : Provision) : IsPlainKind provision.kind := by
  cases provision with
  | constructor => exact (by decide : IsPlainKind "ConstructorProvider")
  | method => exact (by decide : IsPlainKind "MethodProvider")
  | field => exact (by decide : IsPlainKind "FieldProvider")
  | binding => exact (by decide : IsPlainKind "BindingProvider")
  | factory => exact (by decide : IsPlainKind "FactoryProvider")
  | contract => exact (by decide : IsPlainKind "ContractProvider")
  | getter => exact (by decide : IsPlainKind "MethodProvider")

theorem append_cons_inj_of_not_mem {front front' back back' : List Char} (hback : '$' ∉ back)
    (hback' : '$' ∉ back') (h : front ++ '$' :: back = front' ++ '$' :: back') :
    front = front' ∧ back = back' := by
  have hreverse := congrArg List.reverse h
  simp only [List.reverse_append, List.reverse_cons, List.append_assoc, List.singleton_append]
    at hreverse
  have hmem : '$' ∉ back.reverse := by simpa using hback
  have hmem' : '$' ∉ back'.reverse := by simpa using hback'
  have htake := congrArg (List.takeWhile (· ≠ '$')) hreverse
  have hdrop := congrArg (List.dropWhile (· ≠ '$')) hreverse
  rw [ClassName.takeWhile_of_not_mem hmem, ClassName.takeWhile_of_not_mem hmem'] at htake
  rw [ClassName.dropWhile_of_not_mem hmem, ClassName.dropWhile_of_not_mem hmem'] at hdrop
  exact ⟨List.reverse_injective (List.cons.inj hdrop).2, List.reverse_injective htake⟩

theorem kind_append_inj {kind kind' : String} (hkind : IsPlainKind kind)
    (hkind' : IsPlainKind kind') {index index' : Nat}
    (h : kind ++ toString index = kind' ++ toString index') :
    kind = kind' ∧ index = index' := by
  have htake : ∀ {kind : String} {index : Nat}, IsPlainKind kind →
      (kind ++ toString index).toList.takeWhile (fun c => !c.isDigit) = kind.toList := by
    intro kind index hkind
    rw [String.toList_append, List.takeWhile_append_of_pos fun c hc => by simp [(hkind c hc).2]]
    cases hdigits : (toString index).toList with
    | nil => rw [List.takeWhile_nil, List.append_nil]
    | cons digit digits =>
        have hdigit := isDigit_of_mem_toString (hdigits ▸ List.mem_cons_self ..)
        rw [List.takeWhile_cons_of_neg (by simp [hdigit]), List.append_nil]
  have hkinds : kind = kind' := by
    rw [← String.toList_inj, ← htake hkind, h, htake hkind']
  subst hkinds
  exact ⟨rfl, toString_nat_injective ((String.append_right_inj _).1 h)⟩

/-- A name tells its owner, its kind and its number. -/
theorem candidate_inj {project : String} {owner owner' : ClassName} {kind kind' : String}
    (hkind : IsPlainKind kind) (hkind' : IsPlainKind kind') {index index' : Nat}
    (h : (providerPattern project owner kind).candidate index =
      (providerPattern project owner' kind').candidate index') :
    owner = owner' ∧ kind = kind' ∧ index = index' := by
  have hplain : ∀ {kind : String} {index : Nat}, IsPlainKind kind →
      '$' ∉ (kind ++ toString index).toList := by
    intro kind index hkind hmem
    rw [String.toList_append, List.mem_append] at hmem
    exact hmem.elim (fun hmem => (hkind _ hmem).1 rfl) (NameSupply.not_mem_toString_nat index)
  have hstems : owner.internal ++ "$" ++ kind ++ toString index =
      owner'.internal ++ "$" ++ kind' ++ toString index' :=
    (String.append_left_inj _).1 (congrArg ClassName.internal h)
  have hlists : owner.internal.toList ++ '$' :: (kind ++ toString index).toList =
      owner'.internal.toList ++ '$' :: (kind' ++ toString index').toList := by
    have := congrArg String.toList hstems
    simpa [String.toList_append, List.append_assoc] using this
  obtain ⟨howner, hrest⟩ := append_cons_inj_of_not_mem (hplain hkind) (hplain hkind') hlists
  obtain ⟨hkinds, hindex⟩ := kind_append_inj hkind hkind' (String.toList_inj.1 hrest)
  cases owner
  cases owner'
  exact ⟨congrArg ClassName.mk (String.toList_inj.1 howner), hkinds, hindex⟩

/-! ## Free numbers -/

namespace NamePattern

/-- The number of the candidate that has `count` candidates in front of it which are not compiled,
and is not compiled itself. -/
noncomputable def nthFree (compiled : List ClassName) (pattern : NamePattern) (count : Nat) : Nat :=
  Nat.nth (fun index => pattern.candidate index ∉ compiled) count

theorem candidate_injective (pattern : NamePattern) : Function.Injective pattern.candidate := by
  intro a b h
  have hinternal := (String.append_left_inj _).1 (congrArg ClassName.internal h)
  exact toString_nat_injective ((String.append_right_inj _).1 hinternal)

variable {compiled : List ClassName} {pattern : NamePattern} {count index : Nat}

theorem infinite_free (compiled : List ClassName) (pattern : NamePattern) :
    (Set.ofPred fun index => pattern.candidate index ∉ compiled).Infinite := by
  have hfinite : (Set.preimage pattern.candidate {name | name ∈ compiled}).Finite :=
    compiled.finite_toSet.preimage pattern.candidate_injective.injOn
  exact hfinite.infinite_compl

theorem nthFree_not_compiled (compiled : List ClassName) (pattern : NamePattern) (count : Nat) :
    pattern.candidate (pattern.nthFree compiled count) ∉ compiled :=
  Nat.nth_mem_of_infinite (infinite_free compiled pattern) count

theorem nthFree_strictMono (compiled : List ClassName) (pattern : NamePattern) :
    StrictMono (pattern.nthFree compiled) :=
  Nat.nth_strictMono (infinite_free compiled pattern)

theorem nthFree_nil (pattern : NamePattern) (count : Nat) : pattern.nthFree [] count = count :=
  Nat.nth_of_forall fun _ _ => List.not_mem_nil

theorem exists_nthFree_eq (h : pattern.candidate index ∉ compiled) :
    ∃ count, pattern.nthFree compiled count = index := by
  classical
  exact ⟨_, Nat.nth_count h⟩

end NamePattern

/-! ## Packed supplies -/

namespace NameSupply

variable {supply : NameSupply} {pattern other : NamePattern} {count : Nat}

/-- Of a pattern, just the first free candidates were handed out. -/
def Packed (supply : NameSupply) (pattern : NamePattern) (count : Nat) : Prop :=
  ∀ index, pattern.candidate index ∈ supply.generated ↔
    ∃ earlier < count, pattern.nthFree supply.compiled earlier = index

theorem packed_ofCompiled (compiled : List ClassName) (pattern : NamePattern) :
    (ofCompiled compiled).Packed pattern 0 := by
  intro index
  exact iff_of_false List.not_mem_nil fun ⟨_, h, _⟩ => Nat.not_lt_zero _ h

theorem Packed.isFree_iff (h : supply.Packed pattern count) (index : Nat) :
    supply.isFree (pattern.candidate index) = true ↔
      ∃ later ≥ count, pattern.nthFree supply.compiled later = index := by
  rw [NameSupply.isFree_iff, h index]
  constructor
  · rintro ⟨hgenerated, hcompiled⟩
    obtain ⟨place, hplace⟩ := NamePattern.exists_nthFree_eq hcompiled
    exact ⟨place, Nat.le_of_not_lt fun hlt => hgenerated ⟨place, hlt, hplace⟩, hplace⟩
  · rintro ⟨later, hlater, rfl⟩
    refine ⟨?_, NamePattern.nthFree_not_compiled _ _ _⟩
    rintro ⟨earlier, hearlier, heq⟩
    have hsame := (NamePattern.nthFree_strictMono supply.compiled pattern).injective heq
    omega

theorem firstAccepted_eq_some {accepts : Nat → Bool} {index target : Nat}
    (htarget : accepts target = true) (hbefore : ∀ place < target, accepts place = false)
    (hindex : index ≤ target) {count : Nat} (hcount : target < index + count) :
    firstAccepted accepts count index = some target := by
  induction count generalizing index with
  | zero => omega
  | succ count ih =>
      rw [firstAccepted]
      rcases Nat.eq_or_lt_of_le hindex with rfl | hlt
      · rw [if_pos htarget]
      · rw [hbefore index hlt, if_neg Bool.false_ne_true]
        exact ih hlt (by omega)

theorem firstAccepted_eq_none {accepts : Nat → Bool} {index count : Nat}
    (h : ∀ place < index + count, accepts place = false) :
    firstAccepted accepts count index = none := by
  induction count generalizing index with
  | zero => rfl
  | succ count ih =>
      rw [firstAccepted, h index (by omega), if_neg Bool.false_ne_true]
      exact ih fun place hplace => h place (by omega)

theorem Packed.not_isFree_of_lt (h : supply.Packed pattern count) {index : Nat}
    (hindex : index < pattern.nthFree supply.compiled count) :
    supply.isFree (pattern.candidate index) = false := by
  rw [← Bool.not_eq_true, h.isFree_iff]
  rintro ⟨later, hlater, rfl⟩
  have hle := (NamePattern.nthFree_strictMono supply.compiled pattern).monotone hlater
  omega

/-- The name that is handed out next is that of the next free number, if 32 bits can hold it. -/
theorem Packed.unique_eq (h : supply.Packed pattern count) :
    supply.unique pattern =
      if pattern.nthFree supply.compiled count < NamePattern.candidateCount then
        .ok (pattern.candidate (pattern.nthFree supply.compiled count),
          supply.take (pattern.candidate (pattern.nthFree supply.compiled count)))
      else .error (.nameExhausted pattern.display) := by
  unfold unique
  split_ifs with hroom
  · rw [firstAccepted_eq_some ((h.isFree_iff _).2 ⟨count, Nat.le_refl _, rfl⟩)
      (fun place hplace => h.not_isFree_of_lt hplace) (Nat.zero_le _) (by omega)]
  · rw [firstAccepted_eq_none fun place hplace => h.not_isFree_of_lt (by omega)]

theorem Packed.take (h : supply.Packed pattern count) :
    (supply.take (pattern.candidate (pattern.nthFree supply.compiled count))).Packed pattern
      (count + 1) := by
  intro index
  rw [NameSupply.take, List.mem_cons, h index, pattern.candidate_injective.eq_iff]
  constructor
  · rintro (rfl | ⟨earlier, hearlier, rfl⟩)
    · exact ⟨count, Nat.lt_succ_self _, rfl⟩
    · exact ⟨earlier, Nat.lt_succ_of_lt hearlier, rfl⟩
  · rintro ⟨earlier, hearlier, rfl⟩
    rcases Nat.lt_succ_iff_lt_or_eq.1 hearlier with hlt | rfl
    · exact .inr ⟨earlier, hlt, rfl⟩
    · exact .inl rfl

theorem Packed.take_other (h : supply.Packed pattern count) {name : ClassName}
    (hother : ∀ index, pattern.candidate index ≠ name) :
    (supply.take name).Packed pattern count := by
  intro index
  rw [NameSupply.take, List.mem_cons, or_iff_right (hother index)]
  exact h index

end NameSupply

end InjectionCompiler
