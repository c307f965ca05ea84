import InjectionCompiler.Proofs.Firsts
import InjectionCompiler.Proofs.Imports
import Mathlib.Data.Finset.Basic

/-!
# The last registration counts

A class is registered as one of the current input or as one that was compiled before, and its name
may be registered again and again.  Under a name stands the declaration that came last, with the
standing that it came with; the list of names puts the current input first and keeps, within each
part, the order in which the names came for the first time.
-/

namespace InjectionCompiler.ClassPath

/-! ## Registrations -/

inductive Registration where
  | input (decl : ClassDecl)
  | compiled (decl : ClassDecl)

namespace Registration

def decl : Registration → ClassDecl
  | .input decl => decl
  | .compiled decl => decl

def name (registration : Registration) : ClassName :=
  registration.decl.name

def entry : Registration → ClassEntry
  | .input decl => ⟨decl, true⟩
  | .compiled decl => ⟨decl, false⟩

@[simp] theorem decl_entry (registration : Registration) :
    registration.entry.decl = registration.decl := by
  cases registration <;> rfl

theorem isInput_entry_iff {registration : Registration} :
    registration.entry.isInput = true ↔ registration = .input registration.decl := by
  cases registration <;> simp [entry, decl]

/-- No later registration bears the same name. -/
def IsLast (registrations : List Registration) (registration : Registration) : Prop :=
  ∃ before after, registrations = before ++ registration :: after ∧
    ∀ later ∈ after, later.name ≠ registration.name

/-- The last registration of a name adds it to the current input. -/
def EndsInput (registrations : List Registration) (name : ClassName) : Prop :=
  ∃ decl, IsLast registrations (.input decl) ∧ decl.name = name

/-- The place among all registrations at which a name comes for the first time. -/
def firstPlace (registrations : List Registration) (name : ClassName) : Nat :=
  (registrations.map Registration.name).idxOf name

/-- Whether one name is to be listed before another: the current input comes before the rest, and
apart from that the names come in the order of their first registration. -/
def Precedes (registrations : List Registration) (a b : ClassName) : Prop :=
  EndsInput registrations a ∧ ¬EndsInput registrations b ∨
    (EndsInput registrations a ↔ EndsInput registrations b) ∧
      firstPlace registrations a < firstPlace registrations b

variable {registrations : List Registration} {registration other : Registration}

theorem not_isLast_nil : ¬IsLast [] registration := by
  rintro ⟨before, after, hsplit, -⟩
  simp at hsplit

theorem isLast_append_singleton : IsLast (registrations ++ [registration]) other ↔
    other = registration ∨ IsLast registrations other ∧ registration.name ≠ other.name := by
  constructor
  · rintro ⟨before, after, hsplit, hlater⟩
    rcases List.eq_nil_or_concat' after with rfl | ⟨after, last, rfl⟩
    · have hlast := List.append_inj_right' hsplit rfl
      exact .inl (List.singleton_inj.1 hlast).symm
    · rw [← List.cons_append, ← List.append_assoc] at hsplit
      obtain ⟨hfront, hlast⟩ := List.append_inj' hsplit rfl
      cases hlast
      obtain ⟨hafter, hne⟩ := List.forall_mem_append.1 hlater
      exact .inr ⟨⟨before, after, hfront, hafter⟩, hne _ (List.mem_singleton_self _)⟩
  · rintro (rfl | ⟨⟨before, after, rfl, hlater⟩, hne⟩)
    · exact ⟨registrations, [], rfl, List.forall_mem_nil _⟩
    · refine ⟨before, after ++ [registration], by simp, ?_⟩
      exact List.forall_mem_append.2 ⟨hlater, List.forall_mem_singleton.2 hne⟩

end Registration

open Registration

variable {path : ClassPath} {registrations : List Registration}

def apply (path : ClassPath) : Registration → ClassPath
  | .input decl => path.addInput decl
  | .compiled decl => path.addCompiled decl

/-- The class path that a sequence of registrations makes of the empty one. -/
def run (registrations : List Registration) : ClassPath :=
  registrations.foldl apply ∅

theorem run_append_singleton (registrations : List Registration) (registration : Registration) :
    run (registrations ++ [registration]) = (run registrations).apply registration := by
  simp [run]

/-! ## What stands under a name -/

theorem table_apply (path : ClassPath) (registration : Registration) :
    (path.apply registration).table =
      path.table.insert registration.name registration.entry := by
  cases registration <;> rfl

theorem isInput_apply (path : ClassPath) (registration : Registration) (name : ClassName) :
    (path.apply registration).isInput name =
      if name = registration.name then registration.entry.isInput else path.isInput name := by
  rw [isInput, table_apply, Table.find?_insert]
  split <;> rfl

theorem find?_table_run {name : ClassName} {entry : ClassEntry} :
    (run registrations).table.find? name = some entry ↔
      ∃ registration, IsLast registrations registration ∧ registration.name = name ∧
        registration.entry = entry := by
  -- Induction on the run, from its last registration backwards.
  induction registrations using List.reverseRecOn with
  | nil =>
      constructor
      · intro h
        cases h
      · rintro ⟨registration, hlast, -⟩
        exact absurd hlast not_isLast_nil
  | append_singleton registrations registration ih =>
      rw [run_append_singleton, table_apply, Table.find?_insert]
      simp only [isLast_append_singleton]
      split
      · next hname =>
          constructor
          · intro h
            exact ⟨registration, .inl rfl, hname.symm, Option.some.inj h⟩
          · rintro ⟨other, rfl | ⟨-, hne⟩, hother, rfl⟩
            · rfl
            · exact absurd (hname.symm.trans hother.symm) hne
      · next hname =>
          rw [ih]
          constructor
          · rintro ⟨other, hlast, rfl, rfl⟩
            exact ⟨other, .inr ⟨hlast, fun heq => hname heq.symm⟩, rfl, rfl⟩
          · rintro ⟨other, rfl | ⟨hlast, -⟩, rfl, rfl⟩
            · exact absurd rfl hname
            · exact ⟨other, hlast, rfl, rfl⟩

theorem find?_run_eq_some_iff {name : ClassName} {decl : ClassDecl} :
    (run registrations).find? name = some decl ↔
      ∃ registration, IsLast registrations registration ∧ registration.name = name ∧
        registration.decl = decl := by
  rw [find?, Option.map_eq_some_iff]
  simp only [find?_table_run]
  constructor
  · rintro ⟨-, ⟨registration, hlast, hname, rfl⟩, rfl⟩
    exact ⟨registration, hlast, hname, registration.decl_entry.symm⟩
  · rintro ⟨registration, hlast, hname, rfl⟩
    exact ⟨_, ⟨registration, hlast, hname, rfl⟩, registration.decl_entry⟩

theorem isInput_run_iff {name : ClassName} :
    (run registrations).isInput name = true ↔ EndsInput registrations name := by
  rw [isInput, Option.any_eq_true]
  simp only [find?_table_run]
  constructor
  · rintro ⟨-, ⟨registration, hlast, rfl, rfl⟩, hinput⟩
    exact ⟨registration.decl, isInput_entry_iff.1 hinput ▸ hlast, rfl⟩
  · rintro ⟨decl, hlast, rfl⟩
    exact ⟨_, ⟨.input decl, hlast, rfl, rfl⟩, rfl⟩

/-! ## The list of names -/

theorem registered_apply (path : ClassPath) (registration : Registration) :
    (path.apply registration).registered =
      if registration.name ∈ path.registered then path.registered
      else path.registered ++ [registration.name] := by
  rw [registered, table_apply, Table.keys_insert]
  rfl

theorem registered_run (registrations : List Registration) :
    (run registrations).registered = firsts id (registrations.map Registration.name) := by
  induction registrations using List.reverseRecOn with
  | nil => rfl
  | append_singleton registrations registration ih =>
      rw [run_append_singleton, registered_apply, ih, List.map_append, List.map_singleton,
        firsts_id_append_singleton]
      simp only [mem_firsts_id]

theorem mem_registered_run_iff {name : ClassName} : name ∈ (run registrations).registered ↔
    ∃ registration ∈ registrations, registration.name = name := by
  rw [registered_run, mem_firsts_id, List.mem_map]

theorem pairwise_names_run (registrations : List Registration) :
    (run registrations).names.Pairwise (Precedes registrations) := by
  have hplaces : (run registrations).registered.Pairwise fun a b =>
      firstPlace registrations a < firstPlace registrations b := by
    rw [registered_run]
    exact pairwise_firsts_id _
  have hinput : ∀ name ∈ (run registrations).registered.filter (run registrations).isInput,
      EndsInput registrations name :=
    fun name h => isInput_run_iff.1 (List.mem_filter.1 h).2
  have hrest : ∀ name ∈ (run registrations).registered.filter (!(run registrations).isInput ·),
      ¬EndsInput registrations name := by
    intro name h hends
    have hnot := (List.mem_filter.1 h).2
    rw [isInput_run_iff.2 hends] at hnot
    cases hnot
  refine List.pairwise_append.2 ⟨?inputs, ?others, ?across⟩
  case inputs =>
    refine (hplaces.filter _).imp_of_mem fun ha hb hlt => .inr ⟨?_, hlt⟩
    exact iff_of_true (hinput _ ha) (hinput _ hb)
  case others =>
    refine (hplaces.filter _).imp_of_mem fun ha hb hlt => .inr ⟨?_, hlt⟩
    exact iff_of_false (hrest _ ha) (hrest _ hb)
  case across => exact fun a ha b hb => .inl ⟨hinput a ha, hrest b hb⟩

/-! ## Kept in two parts

The standing of the classes may be kept apart from their declarations, as a set of names. -/

@[ext] structure Parts where
  decls : Table ClassName ClassDecl
  inputs : Finset ClassName

namespace Parts

def apply (parts : Parts) : Registration → Parts
  | .input decl => ⟨parts.decls.insert decl.name decl, insert decl.name parts.inputs⟩
  | .compiled decl => ⟨parts.decls.insert decl.name decl, parts.inputs.erase decl.name⟩

def run (registrations : List Registration) : Parts :=
  registrations.foldl apply ⟨∅, ∅⟩

def names (parts : Parts) : List ClassName :=
  let (inputs, others) := parts.decls.keys.partition (· ∈ parts.inputs)
  inputs ++ others

theorem decls_apply (parts : Parts) (registration : Registration) :
    (parts.apply registration).decls =
      parts.decls.insert registration.name registration.decl := by
  cases registration <;> rfl

theorem mem_inputs_apply {parts : Parts} {registration : Registration} {name : ClassName} :
    name ∈ (parts.apply registration).inputs ↔
      if name = registration.name then registration.entry.isInput = true
      else name ∈ parts.inputs := by
  cases registration with
  | input decl =>
      change name ∈ insert decl.name parts.inputs ↔ if name = decl.name then true = true else _
      rw [Finset.mem_insert]
      split <;> simp_all
  | compiled decl =>
      change name ∈ parts.inputs.erase decl.name ↔ if name = decl.name then false = true else _
      rw [Finset.mem_erase]
      split <;> simp_all

end Parts

def parts (path : ClassPath) : Parts where
  decls := path.table.mapValues ClassEntry.decl
  inputs := (path.registered.filter path.isInput).toFinset

theorem find?_decls_parts (path : ClassPath) (name : ClassName) :
    path.parts.decls.find? name = path.find? name :=
  Table.find?_mapValues ..

theorem mem_inputs_parts {name : ClassName} :
    name ∈ path.parts.inputs ↔ path.isInput name = true := by
  rw [parts, List.mem_toFinset, List.mem_filter, and_iff_right_iff_imp]
  intro hinput
  obtain ⟨entry, hentry, -⟩ := (Option.any_eq_true ..).1 hinput
  exact Table.mem_keys_of_find? hentry

theorem names_parts (path : ClassPath) : path.parts.names = path.names := by
  have hkeys : path.parts.decls.keys = path.registered := Table.keys_mapValues ..
  have hinput : (fun name => decide (name ∈ path.parts.inputs)) = path.isInput := by
    funext name
    simp [mem_inputs_parts]
  rw [Parts.names, hkeys, hinput, List.partition_eq_filter_filter]
  rfl

theorem parts_apply (path : ClassPath) (registration : Registration) :
    (path.apply registration).parts = path.parts.apply registration := by
  refine Parts.ext ?_ (Finset.ext fun name => ?_)
  · rw [Parts.decls_apply, parts, table_apply, Table.mapValues_insert, decl_entry]
    rfl
  · rw [Parts.mem_inputs_apply, mem_inputs_parts, mem_inputs_parts, isInput_apply]
    split <;> rfl

theorem parts_run (registrations : List Registration) :
    (run registrations).parts = Parts.run registrations := by
  induction registrations using List.reverseRecOn with
  | nil => rfl
  | append_singleton registrations registration ih =>
      rw [run_append_singleton, parts_apply, ih]
      simp [Parts.run]

/-! ## All together -/

/-- What a class path answers after a sequence of registrations. -/
structure Reflects (registrations : List Registration) : Prop where
  find?_iff : ∀ name decl, (run registrations).find? name = some decl ↔
    ∃ registration, IsLast registrations registration ∧ registration.name = name ∧
      registration.decl = decl
  find?_isSome_iff : ∀ name, ((run registrations).find? name).isSome ↔
    ∃ registration ∈ registrations, registration.name = name
  isInput_iff : ∀ name, (run registrations).isInput name = true ↔ EndsInput registrations name
  mem_names_iff : ∀ name, name ∈ (run registrations).names ↔
    ∃ registration ∈ registrations, registration.name = name
  nodup_names : (run registrations).names.Nodup
  ordered : (run registrations).names.Pairwise (Precedes registrations)
  /-- Kept in two parts, the class path gives the same answers. -/
  parted : (∀ name, (Parts.run registrations).decls.find? name = (run registrations).find? name) ∧
    (∀ name, name ∈ (Parts.run registrations).inputs ↔ (run registrations).isInput name = true) ∧
    (Parts.run registrations).names = (run registrations).names

theorem last_registration_counts (registrations : List Registration) :
    Reflects registrations where
  find?_iff _ _ := find?_run_eq_some_iff
  find?_isSome_iff name := by
    rw [find?, Option.isSome_map, Table.find?_isSome_iff, ← mem_registered_run_iff]
    rfl
  isInput_iff _ := isInput_run_iff
  mem_names_iff name := by rw [mem_names_iff, mem_registered_run_iff]
  nodup_names := nodup_names _
  ordered := pairwise_names_run registrations
  parted := by
    rw [← parts_run]
    exact ⟨find?_decls_parts _, fun _ => mem_inputs_parts, names_parts _⟩

/-- Classes that change their standing change sides and keep their order. -/
example : (run [.compiled (.ofClass ⟨"inn/Bar"⟩), .input (.ofClass ⟨"inn/Desk"⟩),
    .input (.ofClass ⟨"inn/Hall"⟩), .compiled (.ofClass ⟨"inn/Desk"⟩),
    .input (.ofClass ⟨"inn/Bar"⟩)]).names = [⟨"inn/Bar"⟩, ⟨"inn/Hall"⟩, ⟨"inn/Desk"⟩] := by
  decide

end InjectionCompiler.ClassPath
