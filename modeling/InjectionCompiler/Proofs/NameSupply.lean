import InjectionCompiler.Contract
import InjectionCompiler.Factory
import InjectionCompiler.Proofs.Journal

/-!
# Names that are handed out

The supply never hands out a name twice, nor one that was compiled before.  The names of
implementations are made without it; they can be told from all others by their tag, which is what
stands between the last two dollar signs.
-/

namespace InjectionCompiler

theorem toString_nat_injective {a b : Nat} (h : toString a = toString b) : a = b := by
  have hdigits : Nat.toDigits 10 a = Nat.toDigits 10 b := by
    rw [← Nat.toList_repr, ← Nat.toList_repr]
    exact congrArg String.toList h
  rw [← @Nat.ofDigitChars_ten_toDigits a, hdigits, Nat.ofDigitChars_ten_toDigits]

theorem isDigit_of_mem_toString {index : Nat} {c : Char} (h : c ∈ (toString index).toList) :
    c.isDigit = true := by
  have hdigits : (toString index).toList = Nat.toDigits 10 index := Nat.toList_repr
  exact Nat.isDigit_of_mem_toDigits (by decide) (by decide) (hdigits ▸ h)

/-! ## The supply -/

namespace NameSupply

variable {supply next : NameSupply} {name : ClassName}

/-- From `supply`, a name that was free is handed out and taken. -/
structure HandsOut (supply : NameSupply) (name : ClassName) (next : NameSupply) : Prop where
  not_generated : name ∉ supply.generated
  not_compiled : name ∉ supply.compiled
  next_eq : next = supply.take name

theorem isFree_iff :
    supply.isFree name = true ↔ name ∉ supply.generated ∧ name ∉ supply.compiled := by
  simp [isFree]

theorem handsOut_take (h : supply.isFree name = true) :
    supply.HandsOut name (supply.take name) := by
  obtain ⟨hgenerated, hcompiled⟩ := isFree_iff.1 h
  exact ⟨hgenerated, hcompiled, rfl⟩

theorem accepts_of_firstAccepted {accepts : Nat → Bool} {count index found : Nat}
    (h : firstAccepted accepts count index = some found) : accepts found = true := by
  induction count generalizing index with
  | zero => cases h
  | succ count ih =>
      simp only [firstAccepted] at h
      split at h
      · next haccepts =>
          cases h
          exact haccepts
      · exact ih h

theorem handsOut_of_unique {pattern : NamePattern} (h : supply.unique pattern = .ok (name, next)) :
    supply.HandsOut name next ∧ ∃ index, name = pattern.candidate index := by
  unfold unique at h
  split at h
  · next index hindex =>
      cases h
      exact ⟨handsOut_take (accepts_of_firstAccepted hindex), index, rfl⟩
  · cases h

theorem not_mem_toString_nat (index : Nat) : '$' ∉ (toString index).toList := by
  intro h
  exact absurd (isDigit_of_mem_toString h) (by decide)

theorem handsOut_of_uniqueOrIndexed {base : String}
    (h : supply.uniqueOrIndexed base = .ok (name, next)) :
    supply.HandsOut name next ∧
      ∃ number : String, '$' ∉ number.toList ∧ name = ⟨base ++ number⟩ := by
  unfold uniqueOrIndexed at h
  split at h
  · next hfree =>
      cases h
      exact ⟨handsOut_take hfree, "", by decide, by rw [String.append_empty]⟩
  · obtain ⟨hname, index, rfl⟩ := handsOut_of_unique h
    refine ⟨hname, toString index, not_mem_toString_nat index, ?_⟩
    rw [NamePattern.candidate, String.append_empty]

/-! ## Several names -/

/-- From `supply`, the names are handed out one after another. -/
inductive HandsOutAll : NameSupply → List ClassName → NameSupply → Prop where
  | nil (supply : NameSupply) : HandsOutAll supply [] supply
  | cons {supply middle next : NameSupply} {name : ClassName} {names : List ClassName}
      (hfirst : supply.HandsOut name middle) (hrest : HandsOutAll middle names next) :
      HandsOutAll supply (name :: names) next

namespace HandsOutAll

variable {middle : NameSupply} {names others : List ClassName}

theorem generated_eq (h : HandsOutAll supply names next) :
    next.generated = names.reverse ++ supply.generated := by
  induction h with
  | nil => rfl
  | cons hfirst _ ih =>
      rw [ih, hfirst.next_eq, take, List.reverse_cons, List.append_assoc, List.singleton_append]

theorem not_compiled (h : HandsOutAll supply names next) :
    ∀ name ∈ names, name ∉ supply.compiled := by
  induction h with
  | nil => exact fun _ h => absurd h List.not_mem_nil
  | cons hfirst _ ih =>
      rw [hfirst.next_eq] at ih
      exact List.forall_mem_cons.2 ⟨hfirst.not_compiled, ih⟩

theorem nodup_generated (h : HandsOutAll supply names next) (hsupply : supply.generated.Nodup) :
    next.generated.Nodup := by
  induction h with
  | nil => exact hsupply
  | cons hfirst _ ih =>
      refine ih ?_
      rw [hfirst.next_eq]
      exact List.nodup_cons.2 ⟨hfirst.not_generated, hsupply⟩

theorem append (h : HandsOutAll supply names middle) (hothers : HandsOutAll middle others next) :
    HandsOutAll supply (names ++ others) next := by
  induction h with
  | nil => exact hothers
  | cons hfirst _ ih => exact .cons hfirst (ih hothers)

end HandsOutAll

end NameSupply

/-! ## Tags -/

namespace ClassName

/-- What stands between the last two dollar signs of a name, read backwards. -/
def tag (name : ClassName) : List Char :=
  ((name.internal.toList.reverse.dropWhile (· ≠ '$')).drop 1).takeWhile (· ≠ '$')

theorem takeWhile_of_not_mem {front rest : List Char} (h : '$' ∉ front) :
    (front ++ '$' :: rest).takeWhile (· ≠ '$') = front := by
  have hfront : ∀ c ∈ front, decide (c ≠ '$') = true := by
    rintro c hc
    exact decide_eq_true fun heq => h (heq ▸ hc)
  rw [List.takeWhile_append_of_pos hfront, List.takeWhile_cons_of_neg (by simp), List.append_nil]

theorem dropWhile_of_not_mem {front rest : List Char} (h : '$' ∉ front) :
    (front ++ '$' :: rest).dropWhile (· ≠ '$') = '$' :: rest := by
  have hfront : ∀ c ∈ front, decide (c ≠ '$') = true := by
    rintro c hc
    exact decide_eq_true fun heq => h (heq ▸ hc)
  rw [List.dropWhile_append_of_pos hfront, List.dropWhile_cons_of_neg (by simp)]

theorem tag_eq {name : ClassName} {front back : String} (h : name.internal = front ++ "$" ++ back)
    (hback : '$' ∉ back.toList) : name.tag = front.toList.reverse.takeWhile (· ≠ '$') := by
  have hreverse : name.internal.toList.reverse =
      back.toList.reverse ++ '$' :: front.toList.reverse := by
    rw [h]
    simp
  rw [tag, hreverse, dropWhile_of_not_mem (by simpa using hback)]
  rfl

theorem tag_eq_of_parts {name : ClassName} {owner middle back : String}
    (h : name.internal = owner ++ "$" ++ middle ++ "$" ++ back) (hmiddle : '$' ∉ middle.toList)
    (hback : '$' ∉ back.toList) : name.tag = middle.toList.reverse := by
  have hreverse : (owner ++ "$" ++ middle).toList.reverse =
      middle.toList.reverse ++ '$' :: owner.toList.reverse := by
    simp
  rw [tag_eq h hback, hreverse, takeWhile_of_not_mem (by simpa using hmiddle)]

/-- The tag is longer than that of any implementation. -/
def HasLongTag (name : ClassName) : Prop :=
  8 < name.tag.length

theorem hasLongTag_candidate {owner kind project : String} (hkind : '$' ∉ kind.toList)
    (hlong : 8 < kind.length) (hproject : '$' ∉ project.toList) (index : Nat) :
    (NamePattern.candidate ⟨owner ++ "$" ++ kind, "$" ++ project⟩ index).HasLongTag := by
  have hparts : owner ++ "$" ++ kind ++ toString index ++ ("$" ++ project) =
      owner ++ "$" ++ (kind ++ toString index) ++ "$" ++ project := by
    simp only [String.append_assoc]
  have hmiddle : '$' ∉ (kind ++ toString index).toList := by
    rw [String.toList_append, List.mem_append, not_or]
    exact ⟨hkind, NameSupply.not_mem_toString_nat index⟩
  rw [HasLongTag, NamePattern.candidate, tag_eq_of_parts hparts hmiddle hproject,
    List.length_reverse, String.length_toList, String.length_append]
  omega

end ClassName

/-! ## Implementations -/

theorem tag_factoryImplementation (name : ClassName) :
    (factoryImplementation name).tag = "Ferrous".toList.reverse := by
  refine @ClassName.tag_eq_of_parts _ name.internal "Ferrous" "Factory" ?_ (by decide) (by decide)
  simp only [factoryImplementation, ClassName.append, String.append_assoc]
  rfl

theorem tag_contractImplementation {project : String} (hproject : '$' ∉ project.toList)
    (name : ClassName) :
    (contractImplementation name project).tag = "Contract".toList.reverse := by
  refine @ClassName.tag_eq_of_parts _ (name.internal ++ "$Ferrous") "Contract" project ?_
    (by decide) hproject
  simp only [contractImplementation, ClassName.append, String.append_assoc]
  rfl

theorem factoryImplementation_injective {a b : ClassName}
    (h : factoryImplementation a = factoryImplementation b) : a = b := by
  cases a
  cases b
  have hinternal := congrArg ClassName.internal h
  exact congrArg ClassName.mk ((String.append_left_inj _).1 hinternal)

theorem contractImplementation_injective {project : String} {a b : ClassName}
    (h : contractImplementation a project = contractImplementation b project) : a = b := by
  cases a
  cases b
  have hinternal := congrArg ClassName.internal h
  exact congrArg ClassName.mk ((String.append_left_inj _).1 hinternal)

theorem factoryImplementation_ne_contractImplementation {project : String}
    (hproject : '$' ∉ project.toList) (a b : ClassName) :
    factoryImplementation a ≠ contractImplementation b project := by
  intro h
  have htags := congrArg ClassName.tag h
  rw [tag_factoryImplementation, tag_contractImplementation hproject] at htags
  exact absurd htags (by decide)

theorem not_hasLongTag_factoryImplementation (name : ClassName) :
    ¬ (factoryImplementation name).HasLongTag := by
  rw [ClassName.HasLongTag, tag_factoryImplementation]
  decide

theorem not_hasLongTag_contractImplementation {project : String}
    (hproject : '$' ∉ project.toList) (name : ClassName) :
    ¬ (contractImplementation name project).HasLongTag := by
  rw [ClassName.HasLongTag, tag_contractImplementation hproject]
  decide

/-! ## Taking names while providers are assigned -/

namespace Assigning

variable {before after : Assignment}

theorem ends_takeName {choose : NameSupply → Except Failure (ClassName × NameSupply)}
    {name : ClassName} :
    Ends (takeName choose) before name after ↔
      ∃ names, choose before.names = .ok (name, names) ∧
        after = { before with names := names } := by
  simp only [takeName, ends_bind, ends_get]
  constructor
  · rintro ⟨_, _, ⟨rfl, rfl⟩, h⟩
    split at h
    · next taken names htaken =>
        simp only [ends_bind, ends_modify, ends_pure] at h
        obtain ⟨-, _, rfl, rfl, rfl⟩ := h
        exact ⟨names, htaken, rfl⟩
    · exact absurd h ends_throw
  · rintro ⟨names, hchoose, rfl⟩
    refine ⟨before, before, ⟨rfl, rfl⟩, ?_⟩
    rw [hchoose]
    exact ends_bind.2 ⟨.unit, _, ends_modify.2 rfl, ends_pure.2 ⟨rfl, rfl⟩⟩

theorem newProvider_spec {owner : ClassName} {kind : String} {medium : Medium} {provider : Provider}
    (h : Ends (newProvider owner kind medium) before provider after) :
    provider.medium = medium ∧ ∃ names, after = { before with names := names } ∧
      before.names.HandsOut provider.name names ∧ ∃ index, provider.name =
        NamePattern.candidate ⟨owner.internal ++ "$" ++ kind, "$" ++ before.project⟩ index := by
  simp only [newProvider, takeProviderName, ends_bind, ends_get, ends_pure, ends_takeName] at h
  obtain ⟨name, _, ⟨_, _, ⟨rfl, rfl⟩, names, hchoose, rfl⟩, rfl, rfl⟩ := h
  exact ⟨rfl, names, rfl, NameSupply.handsOut_of_unique hchoose⟩

theorem mapM_handsOutAll {α β : Type} {nameOf : β → ClassName} {Related : α → β → Prop}
    {act : α → Assigning β} {xs : List α} {project : String}
    (hact : ∀ x s y t, s.project = project → Ends (act x) s y t →
      s.names.HandsOut (nameOf y) t.names ∧ t.project = project ∧ Related x y)
    (hproject : before.project = project) {ys : List β} (h : Ends (xs.mapM act) before ys after) :
    before.names.HandsOutAll (ys.map nameOf) after.names ∧ after.project = project ∧
      List.Forall₂ Related xs ys := by
  induction xs generalizing before ys with
  | nil =>
      obtain ⟨rfl, rfl⟩ := ends_mapM_nil.1 h
      exact ⟨.nil _, hproject, .nil⟩
  | cons x xs ih =>
      obtain ⟨y, middle, rest, hfirst, hrest, rfl⟩ := ends_mapM_cons.1 h
      obtain ⟨hname, hmiddle, hrelated⟩ := hact x _ _ _ hproject hfirst
      obtain ⟨hnames, hafter, hrelateds⟩ := ih hmiddle hrest
      exact ⟨.cons hname hnames, hafter, .cons hrelated hrelateds⟩

end Assigning

end InjectionCompiler
