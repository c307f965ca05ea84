import InjectionCompiler.Proofs.Providing

/-!
# Requests for providers

Providers are asked for module by module and contract by contract.  A request is answered from what
is remembered, or it names what it lists, one source after another; where one source cannot be
named the request fails, and the names handed out until then are not taken back.
-/

namespace InjectionCompiler

/-! ## Entering names -/

/-- The provision is named after the owner, and its name is of the kind. -/
def Provision.IsOf (owner : ClassName) (kind : String) (provision : Provision) : Prop :=
  provision.owner = .ok owner ∧ provision.kind = kind

instance (owner : ClassName) (kind : String) : DecidablePred (Provision.IsOf owner kind) :=
  fun provision => inferInstanceAs (Decidable (provision.owner = .ok owner ∧ provision.kind = kind))

/-- A count of what is in a ledger for an owner and a kind. -/
abbrev Tally := Ledger → ClassName → String → Nat

namespace Ledger

/-- The number of names that were handed out. -/
def namesOf : Tally := fun ledger owner kind =>
  (ledger.map Prod.snd).countP fun provision => provision.IsOf owner kind

/-- The number of provisions that names were handed out for. -/
def provisionsOf : Tally := fun ledger owner kind =>
  (ledger.map Prod.snd).dedup.countP fun provision => provision.IsOf owner kind

section

variable (tally : Tally) (project : String) (compiled : List ClassName)

/-- The name has the free number of its owner and kind that the tally tells. -/
def IsNext (ledger : Ledger) (provision : Provision) (name : ClassName) : Prop :=
  ∃ owner, provision.owner = .ok owner ∧
    name = (providerPattern project owner provision.kind).candidate
      ((providerPattern project owner provision.kind).nthFree compiled
        (tally ledger owner provision.kind))

/-- The provision cannot be named: no class stands for it, or all its candidates are taken. -/
def Fails (ledger : Ledger) (provision : Provision) (failure : Failure) : Prop :=
  provision.owner = .error failure ∨
    ∃ owner, provision.owner = .ok owner ∧
      failure = .nameExhausted (providerPattern project owner provision.kind).display ∧
      ∀ index < NamePattern.candidateCount,
        (providerPattern project owner provision.kind).candidate index ∈
          compiled ++ ledger.map Prod.fst

/-- The provisions get these names one after another.  One that is shared keeps the name it has,
and any other is entered with its next name. -/
inductive Enters : Ledger → List Provision → List ClassName → Ledger → Prop where
  | nil (ledger : Ledger) : Enters ledger [] [] ledger
  | known {ledger after : Ledger} {provision : Provision} {provisions : List Provision}
      {name : ClassName} {names : List ClassName} (hshared : provision.IsShared)
      (hentry : (name, provision) ∈ ledger) (hrest : Enters ledger provisions names after) :
      Enters ledger (provision :: provisions) (name :: names) after
  | named {ledger after : Ledger} {provision : Provision} {provisions : List Provision}
      {name : ClassName} {names : List ClassName}
      (hnew : provision.IsShared → provision ∉ ledger.map Prod.snd)
      (hnext : IsNext tally project compiled ledger provision name)
      (hrest : Enters ((name, provision) :: ledger) provisions names after) :
      Enters ledger (provision :: provisions) (name :: names) after

/-- The provisions are entered up to one that fails. -/
def StopsAt (ledger : Ledger) (provisions : List Provision) (failure : Failure) (after : Ledger) :
    Prop :=
  ∃ done failing rest names, provisions = done ++ failing :: rest ∧
    Enters tally project compiled ledger done names after ∧
    Fails project compiled after failing failure

/-- The same, where the one that fails had no name to keep. -/
def HaltsAt (ledger : Ledger) (provisions : List Provision) (failure : Failure) (after : Ledger) :
    Prop :=
  ∃ done failing rest names, provisions = done ++ failing :: rest ∧
    Enters tally project compiled ledger done names after ∧
    (failing.IsShared → failing ∉ after.map Prod.snd) ∧ Fails project compiled after failing failure

end

variable {tally : Tally} {project : String} {compiled : List ClassName} {ledger after : Ledger}

theorem Enters.suffix {provisions : List Provision} {names : List ClassName}
    (h : Enters tally project compiled ledger provisions names after) : ledger <:+ after := by
  induction h with
  | nil => exact List.suffix_refl _
  | known _ _ _ ih => exact ih
  | named _ _ _ ih => exact (List.suffix_cons ..).trans ih

theorem Enters.append {between : Ledger} {provisions others : List Provision}
    {names later : List ClassName}
    (h : Enters tally project compiled ledger provisions names between)
    (hothers : Enters tally project compiled between others later after) :
    Enters tally project compiled ledger (provisions ++ others) (names ++ later) after := by
  induction h with
  | nil => exact hothers
  | known hshared hentry _ ih => exact .known hshared hentry (ih hothers)
  | named hnew hnext _ ih => exact .named hnew hnext (ih hothers)

theorem HaltsAt.stopsAt {provisions : List Provision} {failure : Failure}
    (h : HaltsAt tally project compiled ledger provisions failure after) :
    StopsAt tally project compiled ledger provisions failure after := by
  obtain ⟨done, failing, rest, names, heq, henters, -, hfails⟩ := h
  exact ⟨done, failing, rest, names, heq, henters, hfails⟩

theorem HaltsAt.behind {between : Ledger} {provisions others : List Provision}
    {names : List ClassName} {failure : Failure}
    (hdone : Enters tally project compiled ledger provisions names between)
    (h : HaltsAt tally project compiled between others failure after) :
    HaltsAt tally project compiled ledger (provisions ++ others) failure after := by
  obtain ⟨done, failing, rest, later, rfl, henters, hfailing⟩ := h
  exact ⟨provisions ++ done, failing, rest, names ++ later, (List.append_assoc ..).symm,
    hdone.append henters, hfailing⟩

/-! ## Ledgers of assignments -/

/-- The ledger tells of every name that was handed out, and where each owner and kind stands. -/
structure Tallies (project : String) (compiled : List ClassName) (ledger : Ledger)
    (assignment : Assignment) : Prop where
  project_eq : assignment.project = project
  compiled_eq : assignment.names.compiled = compiled
  generated_eq : assignment.names.generated = ledger.map Prod.fst
  remembered : ∀ provision provider, assignment.shared? provision = some provider →
    (provider.name, provision) ∈ ledger
  shared : ∀ provision, provision.IsShared → provision ∈ ledger.map Prod.snd →
    (assignment.shared? provision).isSome
  packed : ∀ owner kind, IsPlainKind kind → assignment.names.Packed
    (providerPattern project owner kind) (namesOf ledger owner kind)
  bounded : ∀ owner kind, IsPlainKind kind → ∀ count < namesOf ledger owner kind,
    (providerPattern project owner kind).nthFree compiled count < NamePattern.candidateCount

theorem tallies_ofCompiled (project : String) (compiled : List ClassName) :
    Tallies project compiled [] (.ofCompiled project compiled) where
  project_eq := rfl
  compiled_eq := rfl
  generated_eq := rfl
  remembered provision provider h := by cases provision <;> cases h
  shared _ _ h := absurd h List.not_mem_nil
  packed owner kind _ := NameSupply.packed_ofCompiled compiled _
  bounded _ _ _ count h := absurd h (Nat.not_lt_zero count)

theorem outcome_newProvider (owner : ClassName) (kind : String) (medium : Medium)
    (before : Assignment) :
    (Assigning.newProvider owner kind medium).outcome before =
      match before.names.unique (providerPattern before.project owner kind) with
      | .error failure => (.error failure, before)
      | .ok (name, names) => (.ok ⟨name, medium⟩, { before with names := names }) := by
  simp only [Assigning.newProvider, Assigning.takeProviderName, Assigning.takeName,
    Assigning.outcome_bind, Assigning.outcome_get, ← providerPattern.eq_1]
  cases before.names.unique (providerPattern before.project owner kind) <;> rfl

theorem outcome_provide (provision : Provision) (medium : Medium) (before : Assignment) :
    (Assigning.provide provision medium).outcome before =
      match before.shared? provision, provision.owner with
      | some provider, _ => (.ok provider, before)
      | none, .error failure => (.error failure, before)
      | none, .ok owner =>
          match before.names.unique (providerPattern before.project owner provision.kind) with
          | .error failure => (.error failure, before)
          | .ok (name, names) =>
              (.ok ⟨name, medium⟩,
                { before with names := names }.remember ⟨name, medium⟩ provision) := by
  rw [Assigning.provide, Assigning.outcome_bind, Assigning.outcome_get]
  dsimp only
  cases before.shared? provision with
  | some provider => rfl
  | none =>
      dsimp only
      rw [Assigning.outcome_bind, Assigning.outcome_except]
      cases provision.owner with
      | error failure => rfl
      | ok owner =>
          dsimp only
          rw [Assigning.outcome_bind, outcome_newProvider]
          cases before.names.unique (providerPattern before.project owner provision.kind) <;> rfl

theorem shared?_withNames (before : Assignment) (names : NameSupply) (provision : Provision) :
    { before with names := names }.shared? provision = before.shared? provision := by
  cases provision <;> rfl

theorem remember_of_not_shared {provision : Provision} (h : ¬ provision.IsShared)
    (before : Assignment) (provider : Provider) : before.remember provider provision = before := by
  cases provision with
  | constructor | binding | factory | contract => exact absurd trivial h
  | method | field | getter => rfl

theorem shared?_remember_cases {before : Assignment} {provider found : Provider}
    {provision other : Provision}
    (h : (before.remember provider provision).shared? other = some found) :
    found = provider ∧ other = provision ∨ before.shared? other = some found := by
  by_cases hshared : provision.IsShared
  · rw [Assignment.shared?_remember hshared] at h
    split at h
    · next heq => exact .inl ⟨(Option.some.inj h).symm, heq⟩
    · exact .inr h
  · rw [remember_of_not_shared hshared] at h
    exact .inr h

theorem isSome_shared?_remember {before : Assignment} {provider : Provider}
    {provision other : Provision} (hother : other.IsShared)
    (h : other = provision ∨ (before.shared? other).isSome) :
    ((before.remember provider provision).shared? other).isSome := by
  by_cases hshared : provision.IsShared
  · rw [Assignment.shared?_remember hshared]
    split
    · rfl
    · next hne => exact h.resolve_left hne
  · rw [remember_of_not_shared hshared]
    exact h.resolve_left fun heq => hshared (heq ▸ hother)

theorem namesOf_cons (entry : ClassName × Provision) (ledger : Ledger) (owner : ClassName)
    (kind : String) : namesOf (entry :: ledger) owner kind =
      namesOf ledger owner kind + if entry.2.IsOf owner kind then 1 else 0 := by
  simp only [namesOf, List.map_cons, List.countP_cons, decide_eq_true_eq]

theorem Tallies.enter {before : Assignment} (h : Tallies project compiled ledger before)
    {provision : Provision} {owner : ClassName} (howner : provision.owner = .ok owner)
    {name : ClassName} {names : NameSupply}
    (hunique : before.names.unique (providerPattern before.project owner provision.kind) =
      .ok (name, names)) (medium : Medium) :
    IsNext namesOf project compiled ledger provision name ∧
      Tallies project compiled ((name, provision) :: ledger)
        ({ before with names := names }.remember ⟨name, medium⟩ provision) := by
  have hplain := isPlainKind_kind provision
  rw [h.project_eq, (h.packed owner provision.kind hplain).unique_eq] at hunique
  split_ifs at hunique with hroom
  obtain ⟨rfl, rfl⟩ := Prod.mk.inj (Except.ok.inj hunique)
  refine ⟨⟨owner, howner, by rw [← h.compiled_eq]⟩, ?_⟩
  constructor
  case project_eq => exact Assignment.project_remember.trans h.project_eq
  case compiled_eq => rw [Assignment.names_remember]; exact h.compiled_eq
  case generated_eq =>
    rw [Assignment.names_remember, List.map_cons, ← h.generated_eq]
    rfl
  case remembered =>
    intro other provider hfound
    rcases shared?_remember_cases hfound with ⟨rfl, rfl⟩ | hfound
    · exact List.mem_cons_self ..
    · rw [shared?_withNames] at hfound
      exact List.mem_cons_of_mem _ (h.remembered _ _ hfound)
  case shared =>
    intro other hshared hmem
    refine isSome_shared?_remember hshared ?_
    rw [shared?_withNames]
    exact (List.mem_cons.1 hmem).imp id (h.shared other hshared)
  case packed =>
    intro owner' kind' hplain'
    rw [Assignment.names_remember, namesOf_cons]
    have hold := h.packed owner' kind' hplain'
    split_ifs with hsame
    · obtain ⟨howner', rfl⟩ := hsame
      rw [howner] at howner'
      cases howner'
      exact hold.take
    · -- The candidates of another owner or kind are other names.
      refine hold.take_other fun index heq => hsame ?_
      obtain ⟨rfl, rfl, -⟩ := candidate_inj hplain' hplain heq
      exact ⟨howner, rfl⟩
  case bounded =>
    intro owner' kind' hplain' count hcount
    rw [namesOf_cons] at hcount
    split_ifs at hcount with hsame
    · obtain ⟨howner', rfl⟩ := hsame
      rw [howner] at howner'
      cases howner'
      rcases Nat.lt_succ_iff_lt_or_eq.1 hcount with hlt | rfl
      · exact h.bounded _ _ hplain' count hlt
      · exact h.compiled_eq ▸ hroom
    · exact h.bounded _ _ hplain' count hcount

theorem Tallies.fails {before : Assignment} (h : Tallies project compiled ledger before)
    {provision : Provision} {owner : ClassName} (howner : provision.owner = .ok owner)
    {failure : Failure}
    (hunique : before.names.unique (providerPattern before.project owner provision.kind) =
      .error failure) : Fails project compiled ledger provision failure := by
  have hpacked := h.packed owner provision.kind (isPlainKind_kind provision)
  rw [h.project_eq, hpacked.unique_eq] at hunique
  split_ifs at hunique with hroom
  refine .inr ⟨owner, howner, (Except.error.inj hunique).symm, fun index hindex => ?_⟩
  have htaken := hpacked.not_isFree_of_lt (Nat.lt_of_lt_of_le hindex (Nat.le_of_not_lt hroom))
  rw [NameSupply.isFree, Bool.and_eq_false_iff] at htaken
  rw [← h.compiled_eq, ← h.generated_eq, List.mem_append]
  rcases htaken with hgenerated | hcompiled
  · exact .inr (by simpa using hgenerated)
  · exact .inl (by simpa using hcompiled)

theorem Tallies.provide {before : Assignment} (h : Tallies project compiled ledger before)
    (provision : Provision) (medium : Medium) :
    Assigning.Tells before
      (fun provider after => ∃ later,
        Enters namesOf project compiled ledger [provision] [provider.name] later ∧
          Tallies project compiled later after ∧ after.answer? = before.answer?)
      (fun failure after => (provision.IsShared → provision ∉ ledger.map Prod.snd) ∧
        Fails project compiled ledger provision failure ∧ after = before)
      (Assigning.provide provision medium) := by
  rw [Assigning.Tells, outcome_provide]
  cases hfound : before.shared? provision with
  | some provider =>
      have hshared : provision.IsShared := by
        cases provision with
        | constructor | binding | factory | contract => exact trivial
        | method | field | getter => cases hfound
      exact ⟨ledger, .known hshared (h.remembered _ _ hfound) (.nil ledger), h, rfl⟩
  | none =>
      -- What is shared and in the ledger would have been remembered.
      have hnew : provision.IsShared → provision ∉ ledger.map Prod.snd := by
        intro hshared hmem
        have hsome := h.shared provision hshared hmem
        rw [hfound] at hsome
        cases hsome
      cases howner : provision.owner with
      | error failure => exact ⟨hnew, .inl howner, rfl⟩
      | ok owner =>
          dsimp only
          cases hunique : before.names.unique
              (providerPattern before.project owner provision.kind) with
          | error failure => exact ⟨hnew, h.fails howner hunique, rfl⟩
          | ok named =>
              obtain ⟨name, names⟩ := named
              obtain ⟨hnext, htallies⟩ := h.enter howner hunique medium
              exact ⟨_, .named hnew hnext (.nil _), htallies, Assignment.answer?_remember ..⟩

theorem Tallies.provideAll {before : Assignment} (h : Tallies project compiled ledger before)
    (entries : List (Provision × Medium)) :
    Assigning.Tells before
      (fun providers after => ∃ later, Enters namesOf project compiled ledger
          (entries.map Prod.fst) (providers.map Provider.name) later ∧
        Tallies project compiled later after ∧ after.answer? = before.answer?)
      (fun failure after => ∃ later, HaltsAt namesOf project compiled ledger
          (entries.map Prod.fst) failure later ∧
        Tallies project compiled later after ∧ after.answer? = before.answer?)
      (Assigning.provideAll entries) := by
  induction entries generalizing ledger before with
  | nil => exact ⟨ledger, .nil ledger, h, rfl⟩
  | cons entry entries ih =>
      obtain ⟨provision, medium⟩ := entry
      rw [Assigning.provideAll, List.mapM_cons]
      refine Assigning.Tells.bind ((h.provide provision medium).mono (fun _ _ => id) ?_) ?_
      · rintro failure after ⟨hnew, hfails, rfl⟩
        exact ⟨ledger, ⟨[], provision, _, [], rfl, .nil ledger, hnew, hfails⟩, h, rfl⟩
      · rintro provider between ⟨middle, hfirst, htallies, hkept⟩
        refine Assigning.Tells.bind ((ih htallies).mono (fun _ _ => id) ?_) ?_
        · rintro failure after ⟨later, hhalts, hlater, hkept'⟩
          exact ⟨later, .behind hfirst hhalts, hlater, hkept'.trans hkept⟩
        · rintro providers after ⟨later, henters, hlater, hkept'⟩
          exact .pure ⟨later, hfirst.append henters, hlater, hkept'.trans hkept⟩

end Ledger

/-! ## Requests -/

/-- A request for the providers of a module, or for those of an imported contract. -/
inductive ProviderRequest where
  | module (module : Module)
  | imported (id : Id .contract) (contract : Contract) (lazy : Bool)
  deriving DecidableEq, Repr

namespace ProviderRequest

/-- What a request is remembered under: the module, or the contract with the way it is imported. -/
def key : ProviderRequest → ClassName × Option Bool
  | .module asked => (asked.name, none)
  | .imported _ contract lazy => (contract.name, some lazy)

def entries (graph : ObjectGraph) : ProviderRequest → List (Provision × Medium)
  | .module asked => asked.entries graph
  | .imported id contract lazy => contract.entries id lazy

/-- What a request lists providers for. -/
def provisions (graph : ObjectGraph) (request : ProviderRequest) : List Provision :=
  (request.entries graph).map Prod.fst

def run (graph : ObjectGraph) : ProviderRequest → Assigning (List Provider)
  | .module asked => Assigning.ofModule graph asked
  | .imported id contract lazy => Assigning.ofImport id contract lazy

/-- A request is answered from what is remembered, or its entries are listed and remembered. -/
theorem tells_run {graph : ObjectGraph} {before : Assignment}
    {Shows : List Provider → Assignment → Prop} {Stops : Failure → Assignment → Prop}
    (request : ProviderRequest)
    (hknown : ∀ providers, before.answer? request.key = some providers → Shows providers before)
    (hnew : before.answer? request.key = none → Assigning.Tells before
      (fun providers between => Shows providers (between.setAnswer providers request.key)) Stops
      (Assigning.provideAll (request.entries graph))) :
    Assigning.Tells before Shows Stops (request.run graph) := by
  cases request with
  | module asked =>
      rw [run, Assigning.ofModule_eq]
      refine Assigning.Tells.bind_get ?_
      split
      · next providers hfound => exact hknown providers hfound
      · next hnone => exact (hnew hnone).bind fun providers between h => h
  | imported id contract lazy =>
      rw [run, Assigning.ofImport_eq]
      refine Assigning.Tells.bind_get ?_
      split
      · next providers hfound => exact hknown providers hfound
      · next hnone => exact (hnew hnone).bind fun providers between h => h

end ProviderRequest

/-- Requests that were answered, the latest first, each with its providers. -/
abbrev Replies := List (ProviderRequest × List Provider)

/-- How a request was answered. -/
abbrev Answer := ProviderRequest × Except Failure (List Provider)

/-- The requests are made one after another, also after some that failed. -/
def serve (graph : ObjectGraph) : List ProviderRequest → Assignment → List Answer × Assignment
  | [], before => ([], before)
  | request :: requests, before =>
      let (answer, between) := (request.run graph).outcome before
      let (answers, after) := serve graph requests between
      ((request, answer) :: answers, after)

namespace Ledger

section

variable (tally : Tally) (graph : ObjectGraph) (project : String) (compiled : List ClassName)

/-- The answers of a run, told by its ledger.  What was answered before is answered again, and
nothing is entered for it. -/
inductive Serves : Replies → Ledger → List Answer → Ledger → Prop where
  | nil (known : Replies) (ledger : Ledger) : Serves known ledger [] ledger
  | again {known : Replies} {ledger after : Ledger} {request : ProviderRequest}
      {providers : List Provider} {answers : List Answer}
      (hknown : ∃ earlier, earlier.key = request.key ∧ (earlier, providers) ∈ known)
      (hrest : Serves known ledger answers after) :
      Serves known ledger ((request, .ok providers) :: answers) after
  | answered {known : Replies} {ledger between after : Ledger}
      {request : ProviderRequest} {providers : List Provider} {answers : List Answer}
      (hnew : request.key ∉ known.map fun answered => answered.1.key)
      (henters : Enters tally project compiled ledger (request.provisions graph)
        (providers.map Provider.name) between)
      (hrest : Serves ((request, providers) :: known) between answers after) :
      Serves known ledger ((request, .ok providers) :: answers) after
  | failed {known : Replies} {ledger between after : Ledger}
      {request : ProviderRequest} {failure : Failure} {answers : List Answer}
      (hnew : request.key ∉ known.map fun answered => answered.1.key)
      (hstops : StopsAt tally project compiled ledger (request.provisions graph) failure between)
      (hrest : Serves known between answers after) :
      Serves known ledger ((request, .error failure) :: answers) after

end

theorem Serves.suffix {tally : Tally} {graph : ObjectGraph} {project : String}
    {compiled : List ClassName} {known : Replies} {ledger after : Ledger}
    {answers : List Answer} (h : Serves tally graph project compiled known ledger answers after) :
    ledger <:+ after := by
  induction h with
  | nil => exact List.suffix_refl _
  | again _ _ ih => exact ih
  | answered _ henters _ ih => exact henters.suffix.trans ih
  | failed _ hstops _ ih =>
      obtain ⟨_, _, _, _, -, henters, -⟩ := hstops
      exact henters.suffix.trans ih

def Recalls (assignment : Assignment) (known : Replies) : Prop :=
  ∀ key providers, assignment.answer? key = some providers ↔
    ∃ request, request.key = key ∧ (request, providers) ∈ known

theorem Tallies.setAnswer {before : Assignment} (h : Tallies project compiled ledger before)
    (providers : List Provider) (key : ClassName × Option Bool) :
    Tallies project compiled ledger (before.setAnswer providers key) where
  project_eq := (before.project_setAnswer providers key).trans h.project_eq
  compiled_eq := (congrArg NameSupply.compiled (before.names_setAnswer providers key)).trans
    h.compiled_eq
  generated_eq := (congrArg NameSupply.generated (before.names_setAnswer providers key)).trans
    h.generated_eq
  remembered provision _ hfound :=
    h.remembered _ _ (before.shared?_setAnswer providers key provision ▸ hfound)
  shared provision hprovision hmem :=
    before.shared?_setAnswer providers key provision ▸ h.shared provision hprovision hmem
  packed owner kind hplain := before.names_setAnswer providers key ▸ h.packed owner kind hplain
  bounded := h.bounded

theorem Tallies.run {before : Assignment} (h : Tallies project compiled ledger before)
    (graph : ObjectGraph) (request : ProviderRequest) :
    Assigning.Tells before
      (fun providers after => before.answer? request.key = some providers ∧ after = before ∨
        before.answer? request.key = none ∧
          (∃ later, Enters namesOf project compiled ledger (request.provisions graph)
            (providers.map Provider.name) later ∧ Tallies project compiled later after) ∧
          ∀ key, after.answer? key =
            if key = request.key then some providers else before.answer? key)
      (fun failure after => before.answer? request.key = none ∧
        (∃ later, HaltsAt namesOf project compiled ledger (request.provisions graph) failure later ∧
          Tallies project compiled later after) ∧ after.answer? = before.answer?)
      (request.run graph) := by
  refine request.tells_run (fun providers hfound => .inl ⟨hfound, rfl⟩) fun hnone => ?_
  refine (h.provideAll _).mono ?_ ?_
  · rintro providers between ⟨later, henters, hlater, hkept⟩
    refine .inr ⟨hnone, ⟨later, henters, hlater.setAnswer providers request.key⟩, fun key => ?_⟩
    rw [Assignment.answer?_setAnswer, hkept]
  · rintro failure after ⟨later, hhalts, hlater, hkept⟩
    exact ⟨hnone, ⟨later, hhalts, hlater⟩, hkept⟩

theorem Recalls.not_mem {assignment : Assignment} {known : Replies}
    (h : Recalls assignment known) {key : ClassName × Option Bool}
    (hnone : assignment.answer? key = none) :
    key ∉ known.map fun answered => answered.1.key := by
  intro hmem
  obtain ⟨⟨request, providers⟩, hknown, rfl⟩ := List.mem_map.1 hmem
  rw [(h request.key providers).2 ⟨request, rfl, hknown⟩] at hnone
  cases hnone

theorem Recalls.cons {before after : Assignment} {known : Replies}
    (h : Recalls before known) {request : ProviderRequest} {providers : List Provider}
    (hnone : before.answer? request.key = none)
    (hanswer : ∀ key, after.answer? key =
      if key = request.key then some providers else before.answer? key) :
    Recalls after ((request, providers) :: known) := by
  intro key others
  rw [hanswer]
  split_ifs with hkey
  · subst hkey
    constructor
    · rintro ⟨⟩
      exact ⟨request, rfl, List.mem_cons_self ..⟩
    · rintro ⟨other, hother, hmem⟩
      rcases List.mem_cons.1 hmem with heq | hmem
      · cases heq
        rfl
      · rw [(h request.key others).2 ⟨other, hother, hmem⟩] at hnone
        cases hnone
  · rw [h key others]
    refine exists_congr fun other => and_congr_right fun hother => ?_
    refine ⟨List.mem_cons_of_mem _, fun hmem => (List.mem_cons.1 hmem).resolve_left fun heq => ?_⟩
    cases heq
    exact hkey hother.symm

/-- A run of requests is told by its ledger. -/
theorem Tallies.serve {before : Assignment} (h : Tallies project compiled ledger before)
    {known : Replies} (hknown : Recalls before known) (graph : ObjectGraph)
    (requests : List ProviderRequest) :
    ∃ later, Serves namesOf graph project compiled known ledger (serve graph requests before).1
      later ∧ Tallies project compiled later (serve graph requests before).2 := by
  induction requests generalizing ledger before known with
  | nil => exact ⟨ledger, .nil known ledger, h⟩
  | cons request requests ih =>
      have hrun := h.run graph request
      unfold Assigning.Tells at hrun
      rw [InjectionCompiler.serve]
      rcases houtcome : (request.run graph).outcome before with ⟨failure | providers, between⟩
      · rw [houtcome] at hrun
        obtain ⟨hnone, ⟨middle, hhalts, hmiddle⟩, hkept⟩ := hrun
        have hstill : Recalls between known := fun key others => by rw [hkept, hknown key others]
        obtain ⟨later, hserves, hlater⟩ := ih hmiddle hstill
        exact ⟨later, .failed (hknown.not_mem hnone) hhalts.stopsAt hserves, hlater⟩
      · rw [houtcome] at hrun
        rcases hrun with ⟨hfound, rfl⟩ | ⟨hnone, ⟨middle, henters, hmiddle⟩, hanswer⟩
        · obtain ⟨later, hserves, hlater⟩ := ih h hknown
          exact ⟨later, .again ((hknown _ _).1 hfound) hserves, hlater⟩
        · obtain ⟨later, hserves, hlater⟩ := ih hmiddle (hknown.cons hnone hanswer)
          exact ⟨later, .answered (hknown.not_mem hnone) henters hserves, hlater⟩

end Ledger

end InjectionCompiler
