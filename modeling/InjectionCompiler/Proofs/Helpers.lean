import InjectionCompiler.Proofs.Reference

/-!
# Package invaders and the key registry

Each invader holds the hidden classes of its package, every class in a field of its own.  The names
of the helpers come from the supply, like those of providers.
-/

namespace InjectionCompiler

/-! ## Names of helpers -/

theorem PackageInvader.hasLongTag_baseName {project number : String}
    (hproject : '$' ∉ project.toList) (hnumber : '$' ∉ number.toList) (package : String) :
    (⟨baseName package project ++ number⟩ : ClassName).HasLongTag := by
  have hback : '$' ∉ (project ++ number).toList := by
    rw [String.toList_append, List.mem_append, not_or]
    exact ⟨hproject, hnumber⟩
  have hfixed : "Ferrous$PackageInvader$" = "Ferrous" ++ "$" ++ "PackageInvader" ++ "$" := rfl
  have hparts : ∃ owner, baseName package project ++ number =
      owner ++ "$" ++ "PackageInvader" ++ "$" ++ (project ++ number) := by
    unfold baseName
    split
    · exact ⟨"Ferrous", by rw [hfixed]; simp only [String.append_assoc]⟩
    · exact ⟨package ++ "/" ++ "Ferrous", by rw [hfixed]; simp only [String.append_assoc]⟩
  obtain ⟨owner, hparts⟩ := hparts
  rw [ClassName.HasLongTag, ClassName.tag_eq_of_parts hparts (by decide) hback]
  decide

theorem KeyRegistry.hasLongTag_baseName {project number : String}
    (hproject : '$' ∉ project.toList) (hnumber : '$' ∉ number.toList) :
    (⟨baseName project ++ number⟩ : ClassName).HasLongTag := by
  have hback : '$' ∉ (project ++ number).toList := by
    rw [String.toList_append, List.mem_append, not_or]
    exact ⟨hproject, hnumber⟩
  have hparts : baseName project ++ number =
      Vocabulary.keyRegistry.internal ++ "$" ++ (project ++ number) := by
    rw [baseName, String.append_assoc]
  rw [ClassName.HasLongTag, ClassName.tag_eq hparts hback]
  decide

/-! ## Fields of an invader -/

theorem nodup_fields (names : List ClassName) :
    ((names.zipIdx.map fun (name, index) =>
      (name, "class" ++ toString index)).map Prod.snd).Nodup := by
  have hfields : (names.zipIdx.map fun (name, index) => (name, "class" ++ toString index)).map
      Prod.snd = (names.zipIdx.map Prod.snd).map fun index => "class" ++ toString index := by
    simp only [List.map_map, Function.comp_def]
  rw [hfields, List.zipIdx_map_snd]
  refine List.Nodup.map (fun a b heq => ?_) List.nodup_range'
  exact toString_nat_injective ((String.append_right_inj _).1 heq)

theorem entries_invaderFields {names : List ClassName} (hnames : names.Nodup) :
    (invaderFields names).entries =
      names.zipIdx.map fun (name, index) => (name, "class" ++ toString index) := by
  refine Table.entries_ofList ?_
  simp only [List.map_map, Function.comp_def]
  rw [show names.zipIdx.map (fun entry => entry.1) = names from List.zipIdx_map_fst 0 names]
  exact hnames

theorem filter_invaderFields {names : List ClassName} (hnames : names.Nodup) {name : ClassName}
    {field : String} (h : (invaderFields names).find? name = some field) :
    ((invaderFields names).entries.filter fun entry => entry.2 = field) = [(name, field)] := by
  have hentry := Table.mem_entries_of_find? h
  rw [entries_invaderFields hnames] at hentry ⊢
  exact filter_eq_singleton (nodup_fields names) hentry

theorem keys_invaderFields {names : List ClassName} (hnames : names.Nodup) :
    (invaderFields names).keys = names := by
  rw [Table.keys, entries_invaderFields hnames, List.map_map]
  exact List.zipIdx_map_fst 0 names

namespace Assigning

variable {path : ClassPath} {keys : List Key} {before after : Assignment} {project : String}

/-- The invader of a package, for the hidden classes that were grouped under it. -/
def Invades (entry : String × List ClassName) (invader : PackageInvader) : Prop :=
  invader.package = entry.1 ∧ invader.fields = invaderFields entry.2

theorem composeInvaders_spec {invaders : List PackageInvader}
    (h : Ends (composeInvaders path keys) before invaders after) :
    before.names.HandsOutAll (invaders.map PackageInvader.name) after.names ∧
      after.project = before.project ∧
      List.Forall₂ (fun entry invader => Invades entry invader ∧
          ('$' ∉ before.project.toList → invader.name.HasLongTag))
        (Table.group ClassName.packageName (firsts id (path.hiddenClasses keys))).entries
        invaders := by
  simp only [composeInvaders, ends_bind, ends_get] at h
  obtain ⟨_, _, ⟨rfl, rfl⟩, h⟩ := h
  refine mapM_handsOutAll ?_ rfl h
  rintro ⟨package, names⟩ s invader t hs hends
  simp only [ends_bind, ends_takeName, ends_pure] at hends
  obtain ⟨name, _, ⟨supply, hchoose, rfl⟩, rfl, rfl⟩ := hends
  obtain ⟨hname, number, hnumber, rfl⟩ := NameSupply.handsOut_of_uniqueOrIndexed hchoose
  refine ⟨hname, hs, ⟨rfl, rfl⟩, fun hproject => ?_⟩
  exact PackageInvader.hasLongTag_baseName hproject hnumber package

theorem composeRegistry_spec {registry : KeyRegistry}
    (h : Ends (composeRegistry keys) before registry after) :
    before.names.HandsOutAll [registry.name] after.names ∧
      ('$' ∉ before.project.toList → registry.name.HasLongTag) := by
  simp only [composeRegistry, ends_bind, ends_get, ends_takeName, ends_pure] at h
  obtain ⟨_, _, ⟨rfl, rfl⟩, name, _, ⟨names, hchoose, rfl⟩, rfl, rfl⟩ := h
  obtain ⟨hname, number, hnumber, rfl⟩ := NameSupply.handsOut_of_uniqueOrIndexed hchoose
  refine ⟨.cons hname (.nil _), fun hproject => ?_⟩
  exact KeyRegistry.hasLongTag_baseName hproject hnumber

end Assigning

/-! ## The invaders of a plan -/

namespace Plan

variable {path : ClassPath} {graph : ObjectGraph} {plan : Plan} {before after : Assignment}

theorem field_of_invaderField?
    (h : Ends (Assigning.composeInvaders path (plan.keys graph)) before plan.invaders after)
    {name : ClassName} {invader : PackageInvader} {field : String}
    (hfield : plan.invaderField? name = some (invader, field)) :
    invader ∈ plan.invaders ∧ invader.package = name.packageName ∧
      (invader.fields.entries.filter fun entry => entry.2 = field) = [(name, field)] := by
  obtain ⟨held, hheld, hrest⟩ := Option.bind_eq_some_iff.1 hfield
  obtain ⟨found, hfound, heq⟩ := Option.bind_eq_some_iff.1 hrest
  cases heq
  have hmem := List.mem_of_find?_eq_some hheld
  have hpackage := List.find?_some hheld
  obtain ⟨-, -, hinvades⟩ := Assigning.composeInvaders_spec h
  obtain ⟨⟨package, names⟩, hentry, ⟨-, hfields⟩, -⟩ := exists_left_of_forall₂ hinvades hmem
  have hnames : names.Nodup := by
    obtain ⟨-, rfl⟩ := Table.mem_entries_group.1 hentry
    exact (nodup_firsts_id _).filter _
  rw [PackageInvader.field?, hfields] at hfound
  rw [hfields]
  exact ⟨hmem, by simpa using hpackage, filter_invaderFields hnames hfound⟩

end Plan

end InjectionCompiler
