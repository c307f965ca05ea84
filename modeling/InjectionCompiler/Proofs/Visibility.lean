import InjectionCompiler.Proofs.Attachment
import InjectionCompiler.Proofs.Invaders
import InjectionCompiler.Proofs.Output
import InjectionCompiler.Proofs.Planning

/-!
# Classes that other packages cannot see

A class is named directly where everyone can see it, and by way of an invader of its own package
where it is hidden.  This works because generated names stay in the package that they are made for:
what is appended to a name has no slash.
-/

namespace InjectionCompiler

/-! ## Packages of generated names -/

namespace ClassName

theorem packageName_append (stem : String) {tail : String} (h : '/' ∉ tail.toList) :
    (⟨stem ++ tail⟩ : ClassName).packageName = (⟨stem⟩ : ClassName).packageName := by
  have hdropped : ∀ c ∈ tail.toList.reverse, decide (c ≠ '/') = true := by
    intro c hc
    exact decide_eq_true fun heq => h (heq ▸ List.mem_reverse.1 hc)
  rw [packageName, packageName, String.toList_append, List.reverse_append,
    List.dropWhile_append_of_pos hdropped]

theorem packageName_within (package : String) {simple : String} (h : '/' ∉ simple.toList) :
    (⟨package ++ "/" ++ simple⟩ : ClassName).packageName = package := by
  rw [packageName_append _ h]
  simp [packageName]

end ClassName

theorem slash_not_mem_toString (index : Nat) : '/' ∉ (toString index).toList := by
  intro h
  exact absurd (isDigit_of_mem_toString h) (by decide)

theorem NamePattern.packageName_candidate {pattern : NamePattern} (h : '/' ∉ pattern.tail.toList)
    (index : Nat) :
    (pattern.candidate index).packageName = (⟨pattern.stem⟩ : ClassName).packageName := by
  rw [candidate, ClassName.packageName_append _ h,
    ClassName.packageName_append _ (slash_not_mem_toString index)]

theorem NameRequest.Answers.packageName_eq {taken : List ClassName} {request : NameRequest}
    {name : ClassName} (h : request.Answers taken (.ok name))
    (htail : '/' ∉ request.pattern.tail.toList) :
    name.packageName = (⟨request.pattern.stem⟩ : ClassName).packageName := by
  cases h with
  | preferred hname =>
      cases request with
      | numbered pattern => cases hname
      | preferring base =>
          cases hname
          rfl
  | candidate => exact NamePattern.packageName_candidate htail _

theorem slash_not_mem_separated {project : String} (hproject : '/' ∉ project.toList) :
    '/' ∉ ("$" ++ project).toList := by
  rw [String.toList_append, List.mem_append, not_or]
  exact ⟨by decide, hproject⟩

theorem PackageInvader.packageName_baseName (package : String) {project : String}
    (hproject : '/' ∉ project.toList) :
    (⟨baseName package project⟩ : ClassName).packageName = package := by
  rw [baseName_eq, String.append_assoc,
    ClassName.packageName_append _ (slash_not_mem_separated hproject), front]
  split
  · next hempty =>
      rw [String.isEmpty_iff.1 hempty]
      decide
  · exact ClassName.packageName_within package (by decide)

theorem Ledger.NamedFor.packageName_eq {project : String} {compiled : List ClassName}
    {name owner : ClassName} {provision : Provision} (h : NamedFor project compiled name provision)
    (hproject : '/' ∉ project.toList) (howner : provision.owner = .ok owner) :
    name.packageName = owner.packageName := by
  obtain ⟨-, other, index, hother, rfl⟩ := h
  cases howner.symm.trans hother
  have hkind : '/' ∉ ("$" ++ provision.kind).toList := by
    cases provision <;> simp only [Provision.kind] <;> decide
  rw [NamePattern.packageName_candidate (slash_not_mem_separated hproject), String.append_assoc,
    ClassName.packageName_append _ hkind]

theorem Config.slash_not_mem {config : Config} (h : config.validate = .ok ()) :
    '/' ∉ config.project.toList := by
  unfold validate at h
  split_ifs at h with hempty hany
  intro hmem
  exact hany (List.any_eq_true.2 ⟨'/', hmem, by decide⟩)

/-! ## What providers belong to -/

/-- The class that a provider belongs to: the constructed class or the module of a member, what
implements a binding, the factory, or the contract. -/
def Medium.anchor? (graph : ObjectGraph) : Medium → Option ClassName
  | .provisionPoint point => some point.owner
  | .binding bound => bound.implementation.asClass?
  | .factory id => (graph.factories.get? id).map Factory.name
  | .contract id => (graph.contracts.get? id).map Contract.name
  | .getter id _ _ => (graph.contracts.get? id).map Contract.name

namespace ClassPath

variable {path : ClassPath} {project : String} {graph : ObjectGraph}

theorem owner_of_mem_pointsOf {decl : ClassDecl} {point : ProvisionPoint}
    (hpoint : point ∈ (path.pointsOf decl).value) (hmember : ¬ point.IsConstructor) :
    point.owner = decl.name := by
  simp only [pointsOf, readProvisionPoints, Logged.value_bind, Logged.value_mapM,
    Logged.value_pure, List.mem_append, List.mem_filterMap, List.mem_map, id_eq] at hpoint
  rcases hpoint with (⟨_, ⟨name, -, rfl⟩, hread⟩ | ⟨_, ⟨method, -, rfl⟩, hread⟩) | ⟨field, -, rfl⟩
  · unfold readConstructorPoint at hread
    split at hread
    · split at hread
      · cases hread
        exact absurd ⟨_, rfl⟩ hmember
      · cases hread
    · cases hread
  · unfold readMethodProvision at hread
    dsimp only at hread
    split at hread <;> cases hread
    rfl
  · rfl

theorem owner_of_member (hgraph : (path.readGraph project).result = .ok graph) {module : Module}
    (hmodule : module ∈ graph.modules.items) {point : ProvisionPoint}
    (hpoint : point ∈ module.provisionPoints) (hmember : ¬ point.IsConstructor) :
    point.owner = module.name := by
  obtain ⟨marked, book, configured, hportrays, -⟩ := portrays_of_readGraph hgraph
  obtain ⟨decl, -, -, hread⟩ :=
    hportrays.exists_decl (Arena.named?_of_mem hportrays.named hmodule)
  have hname : module.name = decl.name := by
    rw [← name_moduleOf (path.sourcesOf project graph.factories marked.contracts configured) book,
      ← hread]
  have hpoints : point ∈ { module with imports := [] }.provisionPoints := hpoint
  rw [hread] at hpoints
  rw [hname]
  exact owner_of_mem_pointsOf (mem_pointsOf_of_mem_moduleOf hpoints) hmember

end ClassPath

namespace Plan

variable {path : ClassPath} {project : String} {graph : ObjectGraph} {plan : Plan}
  {compiled : List ClassName} {assigned before after : Assignment}

theorem exists_anchor (hgraph : (path.readGraph project).result = .ok graph) {place : Listing}
    {medium : Medium} (hat : MediumAt path graph place medium) {provision : Provision}
    (hprovides : medium.Provides graph place.host place.index provision) :
    ∃ anchor, medium.anchor? graph = some anchor ∧ provision.owner = .ok anchor := by
  -- A member is named after its module, and a constructor after the class that it makes.
  have hmember : ∀ point, medium = .provisionPoint point → ¬ point.IsConstructor →
      point.owner = place.host := by
    rintro point rfl hpoint
    cases hat with
    | source hmodule hmedium =>
        rcases Module.mem_media.1 hmedium with
          ⟨other, hother, heq⟩ | ⟨_, -, heq⟩ | ⟨_, -, heq⟩ | ⟨_, -, heq⟩ <;> cases heq
        exact ClassPath.owner_of_member hgraph (ObjectGraph.mem_inputModules.1 hmodule).1 hother
          hpoint
  cases hprovides with
  | constructor => exact ⟨_, rfl, rfl⟩
  | method horigin =>
      exact ⟨_, rfl, congrArg _ (hmember _ rfl (not_isConstructor_of_method horigin)).symm⟩
  | field horigin =>
      exact ⟨_, rfl, congrArg _ (hmember _ rfl (not_isConstructor_of_field horigin)).symm⟩
  | binding bound =>
      cases hat with
      | source hmodule hmedium =>
          rcases Module.mem_media.1 hmedium with
            ⟨_, -, heq⟩ | ⟨other, hbound, heq⟩ | ⟨_, -, heq⟩ | ⟨_, -, heq⟩ <;> cases heq
          have hdeclared := ((ClassPath.mem_bindings_iff hgraph
            (ObjectGraph.mem_inputModules.1 hmodule).1).1 hbound).1
          obtain ⟨name, hname⟩ := ClassPath.exists_implementation hdeclared
          refine ⟨name, ?_, ?_⟩
          · rw [Medium.anchor?, hname]
            rfl
          · rw [Provision.owner, hname]
            rfl
  | factory hget => exact ⟨_, by rw [Medium.anchor?, hget]; rfl, rfl⟩
  | contract hget => exact ⟨_, by rw [Medium.anchor?, hget]; rfl, rfl⟩
  | getter hget => exact ⟨_, by rw [Medium.anchor?, hget]; rfl, rfl⟩

theorem packageName_of_mem_providers (hgraph : (path.readGraph project).result = .ok graph)
    (hplan : plan.Complete path graph assigned) {own : String} (hown : '/' ∉ own.toList)
    (hends : Ends (Assigning.composePlan path graph) (.ofCompiled own compiled) plan after)
    {provider : Provider} (h : provider ∈ plan.providers) :
    ∃ anchor, provider.medium.anchor? graph = some anchor ∧
      provider.name.packageName = anchor.packageName := by
  obtain ⟨ledger, _, _, hrecords, hcovers, -, -⟩ := exists_ledger hends
  obtain ⟨place, hplace⟩ := exists_listed_of_mem hends h
  obtain ⟨provision, hentry, hprovides⟩ := hcovers place provider hplace
  obtain ⟨anchor, hanchor, howner⟩ :=
    exists_anchor hgraph (mediumAt_of_listed hplan hplace) hprovides
  exact ⟨anchor, hanchor, (hrecords.named _ _ hentry).packageName_eq hown howner⟩

/-! ## Invaders -/

theorem packageName_of_composeInvaders {keys : List Key} {invaders : List PackageInvader}
    (h : Ends (Assigning.composeInvaders path keys) before invaders after)
    (hproject : '/' ∉ before.project.toList) {invader : PackageInvader}
    (hinvader : invader ∈ invaders) : invader.name.packageName = invader.package := by
  simp only [Assigning.composeInvaders, ends_bind, Assigning.ends_get] at h
  obtain ⟨_, _, ⟨rfl, rfl⟩, h⟩ := h
  refine @Yields.mapM _ _ _ PackageInvader _ _ _
    (fun _ made => made.name.packageName = made.package) _ _ ?_ ?_ _ _ _ h invader hinvader
  · exact fun _ _ _ _ _ _ hkept _ => hkept
  · rintro ⟨package, names⟩ - state made left hends
    simp only [ends_bind, Assigning.ends_takeName, ends_pure] at hends
    obtain ⟨name, _, ⟨supply, hchoose, rfl⟩, rfl, rfl⟩ := hends
    have hanswer := @NameRequest.answers_of_choose (.preferring _) _ _ _ hchoose
    rw [hanswer.packageName_eq (by simp [NameRequest.pattern])]
    exact PackageInvader.packageName_baseName package hproject

section

variable (h : Ends (Assigning.composeInvaders path (plan.keys graph)) before plan.invaders after)

include h

theorem isSome_invaderField?_iff {name : ClassName} :
    (plan.invaderField? name).isSome = true ↔ ∃ slot ∈ plan.slots, slot.2.1 = name := by
  constructor
  · intro hsome
    obtain ⟨⟨invader, field⟩, hfield⟩ := Option.isSome_iff_exists.1 hsome
    obtain ⟨hinvader, -, hheld⟩ := field_of_invaderField? h hfield
    have hentry := (List.mem_filter.1 (hheld ▸ List.mem_singleton_self _)).1
    exact ⟨_, List.mem_flatMap.2 ⟨invader, hinvader, List.mem_map_of_mem hentry⟩, rfl⟩
  · rintro ⟨slot, hslot, rfl⟩
    have hpackage := package_of_mem_slots h hslot
    obtain ⟨invader, hinvader, hmem⟩ := List.mem_flatMap.1 hslot
    obtain ⟨entry, hentry, rfl⟩ := List.mem_map.1 hmem
    have hfound : plan.invader? entry.1.packageName = some invader := by
      have hsome : (plan.invader? entry.1.packageName).isSome = true :=
        List.find?_isSome.2 ⟨invader, hinvader, decide_eq_true hpackage⟩
      obtain ⟨other, hother⟩ := Option.isSome_iff_exists.1 hsome
      have hsame := List.find?_some hother
      rw [decide_eq_true_eq] at hsame
      rw [hother, List.inj_on_of_nodup_map (nodup_packages h) (List.mem_of_find?_eq_some hother)
        hinvader (hsame.trans hpackage.symm)]
    have hfield : invader.field? entry.1 = some entry.2 := Table.find?_eq_some_iff.2 hentry
    simp [invaderField?, hfound, hfield]

end

end Plan

/-! ## References in units -/

/-- The invader that a unit describes. -/
def GeneratedUnit.invader? : GeneratedUnit → Option InvaderUnit
  | .invader unit => some unit
  | _ => none

/-- Emitted units name a class by way of an invader just where it is hidden, and everything that is
generated stays in the package of what it belongs to. -/
structure Plan.RespectsVisibility (path : ClassPath) (graph : ObjectGraph) (plan : Plan)
    (units : List GeneratedUnit) : Prop where
  /-- A class that is not known counts as public. -/
  invader_iff : ∀ unit ∈ units, ∀ name invader, .classLiteral name invader ∈ unit.references →
    (invader.isSome ↔ ∃ decl, path.find? name = some decl ∧ decl.isPublic = false)
  invader_package : ∀ unit ∈ units, ∀ name field,
    .classLiteral name (some field) ∈ unit.references →
      ∃ invader, .invader invader ∈ units ∧ invader.name = field.owner ∧
        (invader.classes.filter fun held => held.2 = field.field) = [(name, field.field)] ∧
        field.owner.packageName = name.packageName
  held_package : ∀ invader, .invader invader ∈ units →
    invader.name.packageName = invader.package ∧
      ∀ held ∈ invader.classes, held.1.packageName = invader.package
  one_invader : ((units.filterMap GeneratedUnit.invader?).map InvaderUnit.package).Nodup
  provider_package : ∀ unit, .provider unit ∈ units →
    ∃ provider ∈ plan.providers, provider.name = unit.name ∧
      ∃ anchor, provider.medium.anchor? graph = some anchor ∧
        unit.name.packageName = anchor.packageName
  /-- What a method or a field belongs to is the module that has it. -/
  member_owner : ∀ module ∈ graph.modules.items, ∀ point ∈ module.provisionPoints,
    ¬ point.IsConstructor → point.owner = module.name

theorem GeneratedUnit.invader?_eq_some_iff {unit : GeneratedUnit} {invader : InvaderUnit} :
    unit.invader? = some invader ↔ unit = .invader invader := by
  cases unit <;> simp [invader?]

namespace Plan

variable {path : ClassPath} {project : String} {graph : ObjectGraph} {plan : Plan}
  {compiled : List ClassName} {assigned after : Assignment} {units : List GeneratedUnit}

theorem exists_invader_of_mem
    (hunits : plan.units graph = units.map fun unit => (unit.name, .ok unit))
    {built : InvaderUnit} (h : .invader built ∈ units) :
    ∃ invader ∈ plan.invaders, built = ⟨invader.name, invader.package, invader.fields.entries⟩ := by
  obtain ⟨invader, hinvader, hbuilt⟩ := (mem_iff_emits hunits).1 h
  exact ⟨invader, hinvader, (GeneratedUnit.invader.inj hbuilt).symm⟩

theorem nodup_invaderPackages (hnames : ((plan.units graph).map Prod.fst).Nodup)
    (hunits : plan.units graph = units.map fun unit => (unit.name, .ok unit))
    (hpackages : (plan.invaders.map PackageInvader.package).Nodup) :
    ((units.filterMap GeneratedUnit.invader?).map InvaderUnit.package).Nodup := by
  rw [hunits, List.map_map] at hnames
  refine (hnames.of_map.filterMap ?_).map_on ?_
  · intro first second invader hfirst hsecond
    rw [GeneratedUnit.invader?_eq_some_iff.1 hfirst, GeneratedUnit.invader?_eq_some_iff.1 hsecond]
  · intro first hfirst second hsecond hpackage
    simp only [List.mem_filterMap, GeneratedUnit.invader?_eq_some_iff, exists_eq_right]
      at hfirst hsecond
    obtain ⟨one, hone, rfl⟩ := exists_invader_of_mem hunits hfirst
    obtain ⟨two, htwo, rfl⟩ := exists_invader_of_mem hunits hsecond
    rw [List.inj_on_of_nodup_map hpackages hone htwo hpackage]

theorem respectsVisibility (hgraph : (path.readGraph project).result = .ok graph)
    (hplan : plan.Complete path graph assigned) (hslash : '/' ∉ project.toList)
    (hseparator : '$' ∉ project.toList)
    (hends : Ends (Assigning.composePlan path graph) (.ofCompiled project compiled) plan after)
    (hunits : plan.units graph = units.map fun unit => (unit.name, .ok unit)) :
    plan.RespectsVisibility path graph units := by
  obtain ⟨_, recorded, _, hrecords, -, hinvaders, -⟩ := exists_ledger hends
  have hnamed : ∀ invader ∈ plan.invaders, invader.name.packageName = invader.package :=
    fun invader => packageName_of_composeInvaders hinvaders (hrecords.project_eq ▸ hslash)
  constructor
  case invader_iff =>
    intro unit hunit name invader hreference
    obtain ⟨key, hkey, hrefer⟩ := refersTo_of_mem hplan hunits hunit hreference
    have hclass : key.boxed = .ofClass name := isClass_of_referTo_eq hplan hkey.mem_keys hrefer
    -- The class is the whole type of the key, so that the key exposes it.
    have hexposed : ∃ key ∈ plan.keys graph, key.type.Exposes name :=
      ⟨key.boxed, hkey.mem_keys, hclass ▸ .erased rfl⟩
    rw [invader_of_referTo hrefer, Option.isSome_map, isSome_invaderField?_iff hinvaders,
      exists_slot_iff hinvaders, and_iff_left hexposed, ClassPath.isHidden, Option.any_eq_true]
    simp only [Bool.not_eq_true']
  case invader_package =>
    intro unit hunit name field hreference
    obtain ⟨key, -, hrefer⟩ := refersTo_of_mem hplan hunits hunit hreference
    obtain ⟨invader, held, hheld, rfl⟩ := eq_of_referTo_invader hrefer
    obtain ⟨hinvader, hpackage, hfilter⟩ := field_of_invaderField? hinvaders hheld
    exact ⟨_, (mem_iff_emits hunits).2 ⟨invader, hinvader, rfl⟩, rfl, hfilter,
      (hnamed invader hinvader).trans hpackage⟩
  case held_package =>
    intro built hbuilt
    obtain ⟨invader, hinvader, rfl⟩ := exists_invader_of_mem hunits hbuilt
    refine ⟨hnamed invader hinvader, fun held hheld => ?_⟩
    have hslot : (invader.package, held) ∈ plan.slots :=
      List.mem_flatMap.2 ⟨invader, hinvader, List.mem_map_of_mem hheld⟩
    exact (package_of_mem_slots hinvaders hslot).symm
  case one_invader =>
    exact nodup_invaderPackages (nodup_units hends (ClassPath.grounded_readGraph hgraph)
      (ClassPath.wellFormed_readGraph hgraph) hseparator) hunits (nodup_packages hinvaders)
  case provider_package =>
    intro unit hunit
    obtain ⟨provider, hprovider, hbuilt⟩ := (mem_iff_emits hunits).1 hunit
    obtain ⟨_, -, heq, hname, -⟩ := name_of_providerUnit hbuilt
    cases heq
    rw [hname]
    exact ⟨provider, hprovider, rfl,
      packageName_of_mem_providers hgraph hplan hslash hends hprovider⟩
  case member_owner =>
    exact fun module hmodule point => ClassPath.owner_of_member hgraph hmodule

end Plan

namespace Compilation

/-- In a run that reaches generation, every reference to a class respects its visibility, and
generated classes are in the packages that they are made for. -/
theorem units_respect_visibility {run : Compilation} {graph : ObjectGraph} {plan : Plan}
    (hgraph : run.prepare.result = .ok graph) (hplan : (run.plan graph).value.1 = .ok plan) :
    ∃ units : List GeneratedUnit,
      plan.units graph = units.map (fun unit => (unit.name, .ok unit)) ∧
        plan.RespectsVisibility run.path graph units := by
  have hread := (readGraph_of_prepare hgraph).1
  have hconfig := validate_of_prepare hgraph
  obtain ⟨assigned, hcomplete⟩ := exists_complete hread hplan
  obtain ⟨units, hunits⟩ := Plan.exists_units hcomplete
  exact ⟨units, hunits, Plan.respectsVisibility hread hcomplete (Config.slash_not_mem hconfig)
    (Config.separator_not_mem hconfig) (ends_plan hplan) hunits⟩

def partByInvader : KeyReference :=
  .classLiteral ⟨"studio/Part"⟩ (some ⟨⟨"studio/Ferrous$PackageInvader$main"⟩, "class0"⟩)

set_option maxRecDepth 100000 in
theorem units_respect_visibility_studio :
    ∃ graph plan units, (Studio.run []).prepare.result = .ok graph ∧
      ((Studio.run []).plan graph).value.1 = .ok plan ∧
      plan.units graph = units.map (fun unit => (unit.name, .ok unit)) ∧
      (∃ unit ∈ units, partByInvader ∈ unit.references) ∧
      plan.RespectsVisibility (Studio.run []).path graph units := by
  have hshown : ((Studio.run []).prepare.result >>= fun graph =>
      ((Studio.run []).plan graph).value.1.map fun plan => (plan.units graph).any fun entry =>
        (entry.2.toOption.elim [] GeneratedUnit.references).contains partByInvader) = .ok true := by
    decide +kernel
  obtain ⟨graph, hgraph, hshown⟩ := bind_eq_ok.1 hshown
  obtain ⟨plan, hplan, hshown⟩ := exists_ok_of_map_eq_ok hshown
  obtain ⟨units, hunits, hrespects⟩ := units_respect_visibility hgraph hplan
  rw [hunits, List.any_map] at hshown
  obtain ⟨unit, hunit, hreference⟩ := List.any_eq_true.1 hshown
  exact ⟨graph, plan, units, hgraph, hplan, hunits,
    ⟨unit, hunit, List.contains_iff_mem.1 hreference⟩, hrespects⟩

end Compilation

end InjectionCompiler
