import InjectionCompiler.Proofs.Compilation
import InjectionCompiler.Proofs.Helpers
import InjectionCompiler.Proofs.Room

/-!
# The classes that invaders hold

A class can stand anywhere in a type: as a raw class, as an argument, as the bound of a wildcard, or
at the bottom of arrays.  Arrays of generic types are looked into and erased ones are not, so that a
hidden class which is only the element of an erased array gets no slot.
-/

namespace InjectionCompiler

/-! ## Classes in types -/

/-- The class is the type itself or stands at the bottom of its arrays. -/
inductive Descriptor.Contains (name : ClassName) : Descriptor → Prop where
  | object : Contains name (.object name)
  | array {element : Descriptor} (helement : element.Contains name) : Contains name (.array element)

namespace Signature

/-- One of the erased types that the signature is made of has the property. -/
inductive HasPart (part : Descriptor → Prop) : Signature → Prop where
  | erased {type : Descriptor} (htype : part type) : HasPart part (.erased type)
  | raw {raw : ClassName} {arguments : List Signature} (hraw : part (.object raw)) :
      HasPart part (.applied raw arguments)
  | argument {raw : ClassName} {arguments : List Signature} {argument : Signature}
      (hargument : argument ∈ arguments) (h : argument.HasPart part) :
      HasPart part (.applied raw arguments)
  | array {element : Signature} (h : element.HasPart part) : HasPart part (.array element)
  | upper {bound : Signature} (h : bound.HasPart part) : HasPart part (.upper bound)
  | lower {bound : Signature} (h : bound.HasPart part) : HasPart part (.lower bound)

/-- The class stands anywhere in the type. -/
def Contains (name : ClassName) : Signature → Prop :=
  HasPart (Descriptor.Contains name)

/-- The class stands in the type, and not only as the element of an erased array. -/
def Exposes (name : ClassName) : Signature → Prop :=
  HasPart (· = .object name)

variable {part other : Descriptor → Prop} {name : ClassName}

theorem HasPart.mono (himp : ∀ type, part type → other type) {type : Signature}
    (h : type.HasPart part) : type.HasPart other := by
  induction h with
  | erased htype => exact .erased (himp _ htype)
  | raw hraw => exact .raw (himp _ hraw)
  | argument hargument _ ih => exact .argument hargument ih
  | array _ ih => exact .array ih
  | upper _ ih => exact .upper ih
  | lower _ ih => exact .lower ih

theorem Exposes.contains {type : Signature} (h : type.Exposes name) : type.Contains name :=
  HasPart.mono (fun _ heq => heq ▸ .object) h

theorem hasPart_erased {type : Descriptor} : (erased type).HasPart part ↔ part type :=
  ⟨fun h => by cases h; assumption, .erased⟩

theorem hasPart_applied {raw : ClassName} {arguments : List Signature} :
    (applied raw arguments).HasPart part ↔
      part (.object raw) ∨ ∃ argument ∈ arguments, argument.HasPart part := by
  constructor
  · intro h
    cases h with
    | raw hraw => exact .inl hraw
    | argument hargument h => exact .inr ⟨_, hargument, h⟩
  · rintro (hraw | ⟨argument, hargument, h⟩)
    · exact .raw hraw
    · exact .argument hargument h

theorem hasPart_array {element : Signature} :
    (array element).HasPart part ↔ element.HasPart part :=
  ⟨fun h => by cases h; assumption, .array⟩

theorem hasPart_upper {bound : Signature} : (upper bound).HasPart part ↔ bound.HasPart part :=
  ⟨fun h => by cases h; assumption, .upper⟩

theorem hasPart_lower {bound : Signature} : (lower bound).HasPart part ↔ bound.HasPart part :=
  ⟨fun h => by cases h; assumption, .lower⟩

mutual

theorem object_mem_mentioned : (type : Signature) →
    (.object name ∈ type.mentioned ↔ type.Exposes name)
  | .erased type => by cases type <;> simp [mentioned, Exposes, hasPart_erased, eq_comm]
  | .applied raw arguments => by
      simp [mentioned, Exposes, hasPart_applied, object_mem_mentionedAll arguments, eq_comm]
  | .array element => by
      rw [mentioned, object_mem_mentioned element]
      exact hasPart_array.symm
  | .typeVariable _ => iff_of_false List.not_mem_nil fun h => by cases h
  | .upper bound => by
      rw [mentioned, object_mem_mentioned bound]
      exact hasPart_upper.symm
  | .lower bound => by
      rw [mentioned, object_mem_mentioned bound]
      exact hasPart_lower.symm

theorem object_mem_mentionedAll : (types : List Signature) →
    (.object name ∈ mentionedAll types ↔ ∃ type ∈ types, type.Exposes name)
  | [] => by simp [mentionedAll]
  | type :: types => by
      simp [mentionedAll, object_mem_mentioned type, object_mem_mentionedAll types]

end

end Signature

/-! ## The slots of a plan -/

namespace Plan

/-- The slots of all invaders.  Each is told by the package of the invader, the class that it holds
and its field. -/
def slots (plan : Plan) : List (String × ClassName × String) :=
  plan.invaders.flatMap fun invader =>
    invader.fields.entries.map fun entry => (invader.package, entry)

/-- The class has one slot, and the invader of its package has it. -/
def HasOneSlot (plan : Plan) (name : ClassName) : Prop :=
  ∃ field, plan.slots.filter (fun slot => slot.2.1 = name) = [(name.packageName, name, field)]

/-- The hidden classes that stand anywhere in the types of keys have one slot each, and there are no
other slots. -/
structure CoversHidden (path : ClassPath) (graph : ObjectGraph) (plan : Plan) : Prop where
  held : ∀ name, path.isHidden name = true →
    (∃ key ∈ plan.keys graph, key.type.Contains name) → plan.HasOneSlot name
  only : ∀ slot ∈ plan.slots, path.isHidden slot.2.1 = true ∧
    ∃ key ∈ plan.keys graph, key.type.Contains slot.2.1

/-- The hidden classes that keys expose have one slot each, and there are no other slots. -/
structure CoversExposed (path : ClassPath) (graph : ObjectGraph) (plan : Plan) : Prop where
  one_invader : (plan.invaders.map PackageInvader.package).Nodup
  held : ∀ name, path.isHidden name = true →
    (∃ key ∈ plan.keys graph, key.type.Exposes name) → plan.HasOneSlot name
  only : ∀ slot ∈ plan.slots, path.isHidden slot.2.1 = true ∧
    ∃ key ∈ plan.keys graph, key.type.Exposes slot.2.1
  covers_iff : plan.CoversHidden path graph ↔ ∀ name, path.isHidden name = true →
    (∃ key ∈ plan.keys graph, key.type.Contains name) →
      ∃ key ∈ plan.keys graph, key.type.Exposes name

variable {path : ClassPath} {graph : ObjectGraph} {plan : Plan} {before after : Assignment}

theorem nodup_packages
    (h : Ends (Assigning.composeInvaders path (plan.keys graph)) before plan.invaders after) :
    (plan.invaders.map PackageInvader.package).Nodup := by
  obtain ⟨-, -, hinvades⟩ := Assigning.composeInvaders_spec h
  have hpackages : plan.invaders.map PackageInvader.package =
      (Table.group ClassName.packageName
        (firsts id (path.hiddenClasses (plan.keys graph)))).keys := by
    refine (List.forall₂_eq_eq_eq ▸ List.forall₂_map_left_iff.2 (List.forall₂_map_right_iff.2 ?_))
    exact hinvades.flip.imp fun invader entry hentry => hentry.1.1
  rw [hpackages]
  exact Table.distinct _

theorem slots_eq
    (h : Ends (Assigning.composeInvaders path (plan.keys graph)) before plan.invaders after) :
    plan.slots =
      (Table.group ClassName.packageName
        (firsts id (path.hiddenClasses (plan.keys graph)))).entries.flatMap fun entry =>
          (invaderFields entry.2).entries.map fun slot => (entry.1, slot) := by
  obtain ⟨-, -, hinvades⟩ := Assigning.composeInvaders_spec h
  rw [slots]
  generalize Table.entries _ = entries at hinvades ⊢
  generalize plan.invaders = invaders at hinvades ⊢
  induction hinvades with
  | nil => rfl
  | cons hhead _ ih =>
      obtain ⟨⟨hpackage, hfields⟩, -⟩ := hhead
      rw [List.flatMap_cons, List.flatMap_cons, hpackage, hfields, ih]

theorem map_name_slots
    (h : Ends (Assigning.composeInvaders path (plan.keys graph)) before plan.invaders after) :
    (plan.slots.map fun slot => slot.2.1).Perm
      (firsts id (path.hiddenClasses (plan.keys graph))) := by
  refine .trans (.of_eq ?_) (Table.perm_flatten_group ClassName.packageName _)
  rw [slots_eq h, List.map_flatMap, Table.values, ← List.flatMap_def]
  refine List.flatMap_congr fun entry hentry => ?_
  have hnames : entry.2.Nodup := by
    rw [(Table.mem_entries_group.1 hentry).2]
    exact (nodup_firsts_id _).filter _
  rw [List.map_map]
  exact keys_invaderFields hnames

theorem package_of_mem_slots
    (h : Ends (Assigning.composeInvaders path (plan.keys graph)) before plan.invaders after)
    {slot : String × ClassName × String} (hslot : slot ∈ plan.slots) :
    slot.1 = slot.2.1.packageName := by
  rw [slots_eq h] at hslot
  obtain ⟨⟨package, names⟩, hentry, hmem⟩ := List.mem_flatMap.1 hslot
  obtain ⟨⟨name, field⟩, hfield, rfl⟩ := List.mem_map.1 hmem
  obtain ⟨-, hnames⟩ := Table.mem_entries_group.1 hentry
  have hnodup : names.Nodup := hnames ▸ (nodup_firsts_id _).filter _
  have hname : name ∈ names := by
    rw [← keys_invaderFields hnodup]
    exact List.mem_map_of_mem hfield
  rw [hnames, List.mem_filter] at hname
  exact (of_decide_eq_true hname.2).symm

theorem hasOneSlot_iff
    (h : Ends (Assigning.composeInvaders path (plan.keys graph)) before plan.invaders after)
    {name : ClassName} : plan.HasOneSlot name ↔ ∃ slot ∈ plan.slots, slot.2.1 = name := by
  constructor
  · rintro ⟨field, hfilter⟩
    have hmem := List.mem_filter.1 (hfilter ▸ List.mem_singleton_self _)
    exact ⟨_, hmem.1, rfl⟩
  · rintro ⟨⟨package, held, field⟩, hslot, rfl⟩
    have hnodup : (plan.slots.map fun slot => slot.2.1).Nodup :=
      (map_name_slots h).nodup_iff.2 (nodup_firsts_id _)
    have hpackage : package = held.packageName := package_of_mem_slots h hslot
    exact ⟨field, hpackage ▸ filter_eq_singleton hnodup hslot⟩

theorem exists_slot_iff
    (h : Ends (Assigning.composeInvaders path (plan.keys graph)) before plan.invaders after)
    {name : ClassName} : (∃ slot ∈ plan.slots, slot.2.1 = name) ↔
      path.isHidden name = true ∧ ∃ key ∈ plan.keys graph, key.type.Exposes name := by
  rw [← List.mem_map, (map_name_slots h).mem_iff, mem_firsts_id, ClassPath.mem_hiddenClasses,
    ClassPath.Hides]
  simp only [Signature.object_mem_mentioned]

theorem coversExposed
    (h : Ends (Assigning.composeInvaders path (plan.keys graph)) before plan.invaders after) :
    plan.CoversExposed path graph := by
  have hheld : ∀ name, plan.HasOneSlot name ↔
      path.isHidden name = true ∧ ∃ key ∈ plan.keys graph, key.type.Exposes name :=
    fun _ => (hasOneSlot_iff h).trans (exists_slot_iff h)
  have honly : ∀ slot ∈ plan.slots, path.isHidden slot.2.1 = true ∧
      ∃ key ∈ plan.keys graph, key.type.Exposes slot.2.1 :=
    fun slot hslot => (exists_slot_iff h).1 ⟨slot, hslot, rfl⟩
  constructor
  case one_invader => exact nodup_packages h
  case held => exact fun name hhidden hexposed => (hheld name).2 ⟨hhidden, hexposed⟩
  case only => exact honly
  case covers_iff =>
    constructor
    · intro hcovers name hhidden hcontained
      exact ((hheld name).1 (hcovers.held name hhidden hcontained)).2
    · intro hexposes
      constructor
      · exact fun name hhidden hcontained =>
          (hheld name).2 ⟨hhidden, hexposes name hhidden hcontained⟩
      · intro slot hslot
        obtain ⟨hhidden, key, hkey, hexposed⟩ := honly slot hslot
        exact ⟨hhidden, key, hkey, hexposed.contains⟩

end Plan

namespace Compilation

variable {run : Compilation} {graph : ObjectGraph} {plan : Plan}

/-- The invaders of a plan hold the hidden classes that its keys expose. -/
theorem invaders_cover_exposed (hplan : (run.plan graph).value.1 = .ok plan) :
    plan.CoversExposed run.path graph := by
  obtain ⟨_, _, _, _, _, -, -, -, -, -, -, -, hinvaders, -⟩ :=
    Assigning.exists_steps_of_composePlan (ends_plan hplan)
  exact Plan.coversExposed hinvaders

end Compilation

/-! ## A hidden class in an erased array -/

namespace Cellar

def cask : ClassDecl :=
  { ClassDecl.ofClass ⟨"inn/Cask"⟩ with isPublic := false }

/-- A component that provides casks, which are not public. -/
def cellar (casks : Signature) : ClassDecl :=
  { ClassDecl.ofClass ⟨"inn/Cellar"⟩ with
    annotations := [.ofType Vocabulary.component]
    methods := [{ MethodDecl.emptyConstructor with
      name := "casks"
      returns := casks
      annotations := [.ofType Vocabulary.provide] }] }

def run (casks : Signature) : Compilation where
  path := [cellar casks, cask].foldl ClassPath.addInput ∅
  compiled := []
  config := .default
  time := ""

def generic : Signature := .array (.ofClass ⟨"inn/Cask"⟩)

def erased : Signature := .erased (.array (.object ⟨"inn/Cask"⟩))

end Cellar

namespace Compilation

set_option maxRecDepth 100000 in
theorem invaders_cover_exposed_cellar :
    ∃ graph plan, ((Cellar.run Cellar.generic).path.readGraph "main").result = .ok graph ∧
      ((Cellar.run Cellar.generic).plan graph).value.1 = .ok plan ∧
      plan.slots = [("inn", ⟨"inn/Cask"⟩, "class0")] ∧
      plan.CoversExposed (Cellar.run Cellar.generic).path graph := by
  have hslots : (((Cellar.run Cellar.generic).path.readGraph "main").result >>= fun graph =>
      ((Cellar.run Cellar.generic).plan graph).value.1.map Plan.slots) =
        .ok [("inn", ⟨"inn/Cask"⟩, "class0")] := by
    decide +kernel
  obtain ⟨graph, hgraph, hslots⟩ := bind_eq_ok.1 hslots
  obtain ⟨plan, hplan, hslots⟩ := exists_ok_of_map_eq_ok hslots
  exact ⟨graph, plan, hgraph, hplan, hslots, invaders_cover_exposed hplan⟩

set_option maxRecDepth 100000 in
/-- No invader holds the casks, although the key of the provider names them. -/
theorem array_element_not_held :
    ∃ graph plan, ((Cellar.run Cellar.erased).path.readGraph "main").result = .ok graph ∧
      ((Cellar.run Cellar.erased).plan graph).value.1 = .ok plan ∧
      ¬ plan.CoversHidden (Cellar.run Cellar.erased).path graph := by
  have hsummary : (((Cellar.run Cellar.erased).path.readGraph "main").result >>= fun graph =>
      ((Cellar.run Cellar.erased).plan graph).value.1.map fun plan =>
        (plan.slots, plan.keys graph)) = .ok ([], [⟨Cellar.erased, none⟩]) := by
    decide +kernel
  obtain ⟨graph, hgraph, hsummary⟩ := bind_eq_ok.1 hsummary
  obtain ⟨plan, hplan, hsummary⟩ := exists_ok_of_map_eq_ok hsummary
  obtain ⟨hslots, hkeys⟩ := Prod.mk.inj hsummary
  refine ⟨graph, plan, hgraph, hplan, fun hcovers => ?_⟩
  have hnamed : (Cellar.erased).Contains ⟨"inn/Cask"⟩ := .erased (.array .object)
  obtain ⟨field, hslot⟩ := hcovers.held ⟨"inn/Cask"⟩ (by decide +kernel)
    ⟨_, hkeys ▸ List.mem_singleton_self _, hnamed⟩
  rw [hslots] at hslot
  cases hslot

end Compilation

end InjectionCompiler
