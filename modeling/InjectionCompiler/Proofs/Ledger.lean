import InjectionCompiler.Proofs.Assignment

/-!
# The ledger of provisions

Every name that is handed out to a provider is entered in a ledger, together with what the provider
stands for.  Names and provisions each stand in it once, so that providers have the same name
exactly when they stand for the same thing.
-/

namespace InjectionCompiler

/-! ## What providers stand for -/

/-- What a provider stands for.  Methods, fields and getters are told apart by their places. -/
inductive Provision where
  | constructor (target : ClassName)
  | method (module : ClassName) (index : Nat)
  | field (module : ClassName) (index : Nat)
  | binding (binding : Binding)
  | factory (name : ClassName)
  | contract (name : ClassName)
  | getter (contract : ClassName) (lazy : Bool) (index : Nat)
  deriving DecidableEq, Repr

namespace Provision

/-- The class that the provider is named after. -/
def owner : Provision → Except Failure ClassName
  | .constructor target => .ok target
  | .method module _ => .ok module
  | .field module _ => .ok module
  | .binding bound => Assigning.elementClass bound.implementation.type.erasure
  | .factory name => .ok name
  | .contract name => .ok name
  | .getter name _ _ => .ok name

def kind : Provision → String
  | .constructor _ => "ConstructorProvider"
  | .method _ _ => "MethodProvider"
  | .field _ _ => "FieldProvider"
  | .binding _ => "BindingProvider"
  | .factory _ => "FactoryProvider"
  | .contract _ => "ContractProvider"
  | .getter _ _ _ => "MethodProvider"

/-- Whether all modules that list the provision share its provider. -/
def IsShared : Provision → Prop
  | .constructor _ => True
  | .binding _ => True
  | .factory _ => True
  | .contract _ => True
  | .method _ _ => False
  | .field _ _ => False
  | .getter _ _ _ => False

def MemberBelow (module : ClassName) (count : Nat) : Provision → Prop
  | .method owner index => owner = module ∧ index < count
  | .field owner index => owner = module ∧ index < count
  | _ => False

def GetterBelow (contract : ClassName) (lazy : Bool) (count : Nat) : Provision → Prop
  | .getter owner how index => owner = contract ∧ how = lazy ∧ index < count
  | _ => False

theorem not_memberBelow_of_isShared {provision : Provision} (h : provision.IsShared)
    (module : ClassName) (count : Nat) : ¬ provision.MemberBelow module count := by
  cases provision <;> first | exact id | exact absurd h id

end Provision

/-- What a provider with the given medium stands for, where it is listed for `host` at `index`. -/
inductive Medium.Provides (graph : ObjectGraph) (host : ClassName) (index : Nat) :
    Medium → Provision → Prop where
  | constructor {point : ProvisionPoint} {injectees : List Dependency}
      (horigin : point.origin = .constructor injectees) :
      Provides graph host index (.provisionPoint point) (.constructor point.owner)
  | method {point : ProvisionPoint} {name : String} {injectees : List Dependency}
      (horigin : point.origin = .method name injectees) :
      Provides graph host index (.provisionPoint point) (.method host index)
  | field {point : ProvisionPoint} {name : String} (horigin : point.origin = .field name) :
      Provides graph host index (.provisionPoint point) (.field host index)
  | binding (bound : Binding) : Provides graph host index (.binding bound) (.binding bound)
  | factory {id : Id .factory} {factory : Factory} (hget : graph.factories.get? id = some factory) :
      Provides graph host index (.factory id) (.factory factory.name)
  | contract {id : Id .contract} {contract : Contract}
      (hget : graph.contracts.get? id = some contract) :
      Provides graph host index (.contract id) (.contract contract.name)
  | getter {id : Id .contract} {contract : Contract} {lazy : Bool} {served : Getter}
      (hget : graph.contracts.get? id = some contract) :
      Provides graph host index (.getter id lazy served) (.getter contract.name lazy index)

/-! ## Remembered provisions -/

namespace Assignment

def shared? (assignment : Assignment) : Provision → Option Provider
  | .constructor target => assignment.constructors.find? target
  | .binding bound => assignment.bindings.find? bound
  | .factory name => assignment.factories.find? name
  | .contract name => assignment.contracts.find? name
  | .method _ _ => none
  | .field _ _ => none
  | .getter _ _ _ => none

def remember (assignment : Assignment) (provider : Provider) : Provision → Assignment
  | .constructor target =>
      { assignment with constructors := assignment.constructors.insert target provider }
  | .binding bound => { assignment with bindings := assignment.bindings.insert bound provider }
  | .factory name => { assignment with factories := assignment.factories.insert name provider }
  | .contract name => { assignment with contracts := assignment.contracts.insert name provider }
  | .method _ _ => assignment
  | .field _ _ => assignment
  | .getter _ _ _ => assignment

/-- The provision has its provider, which is answered when it is asked for again. -/
def Settled (assignment : Assignment) : Provision → Prop
  | .method module _ => (assignment.modules.find? module).isSome
  | .field module _ => (assignment.modules.find? module).isSome
  | .getter contract lazy _ => (assignment.getters.find? (contract, lazy)).isSome
  | .constructor target => (assignment.shared? (.constructor target)).isSome
  | .binding bound => (assignment.shared? (.binding bound)).isSome
  | .factory name => (assignment.shared? (.factory name)).isSome
  | .contract name => (assignment.shared? (.contract name)).isSome

variable {assignment : Assignment} {provider : Provider} {provision : Provision}

theorem shared?_remember (h : provision.IsShared) (other : Provision) :
    (assignment.remember provider provision).shared? other =
      if other = provision then some provider else assignment.shared? other := by
  cases provision <;> first | exact absurd h id | skip
  all_goals cases other <;> simp [remember, shared?, Table.find?_insert]

@[simp] theorem project_remember :
    (assignment.remember provider provision).project = assignment.project := by
  cases provision <;> rfl

@[simp] theorem names_remember :
    (assignment.remember provider provision).names = assignment.names := by
  cases provision <;> rfl

@[simp] theorem modules_remember :
    (assignment.remember provider provision).modules = assignment.modules := by
  cases provision <;> rfl

@[simp] theorem getters_remember :
    (assignment.remember provider provision).getters = assignment.getters := by
  cases provision <;> rfl

theorem settled_iff_of_isShared (h : provision.IsShared) :
    assignment.Settled provision ↔ (assignment.shared? provision).isSome := by
  cases provision <;> first | exact Iff.rfl | exact absurd h id

theorem Settled.mono {after : Assignment}
    (hshared : ∀ other, (assignment.shared? other).isSome → (after.shared? other).isSome)
    (hmodules : ∀ name, (assignment.modules.find? name).isSome → (after.modules.find? name).isSome)
    (hgetters : ∀ key, (assignment.getters.find? key).isSome → (after.getters.find? key).isSome)
    (h : assignment.Settled provision) : after.Settled provision := by
  cases provision with
  | constructor | binding | factory | contract => exact hshared _ h
  | method | field => exact hmodules _ h
  | getter => exact hgetters _ h

end Assignment

/-! ## Ledgers -/

/-- Names with what they were handed out for, the latest first. -/
abbrev Ledger := List (ClassName × Provision)

namespace Ledger

variable {project : String} {compiled : List ClassName} {graph : ObjectGraph}

/-- The name was made for the provision and was not compiled before. -/
def NamedFor (project : String) (compiled : List ClassName) (name : ClassName)
    (provision : Provision) : Prop :=
  name ∉ compiled ∧ ∃ owner index, provision.owner = .ok owner ∧
    name = NamePattern.candidate ⟨owner.internal ++ "$" ++ provision.kind, "$" ++ project⟩ index

def Lists (graph : ObjectGraph) (ledger : Ledger) (host : ClassName) (providers : List Provider) :
    Prop :=
  ∀ (index : Nat) (provider : Provider), providers[index]? = some provider →
    ∃ provision, (provider.name, provision) ∈ ledger ∧
      provider.medium.Provides graph host index provision

def HasShared (graph : ObjectGraph) (ledger : Ledger) (provider : Provider) : Prop :=
  ∃ provision, (provider.name, provision) ∈ ledger ∧
    ∀ host index, provider.medium.Provides graph host index provision

/-- The ledger tells of every name that was handed out.  The provisions in it can be looked up, but
for the pending ones, whose list is not finished. -/
structure Records (project : String) (compiled : List ClassName) (graph : ObjectGraph)
    (pending : Provision → Prop) (ledger : Ledger) (assignment : Assignment) : Prop where
  project_eq : assignment.project = project
  compiled_eq : assignment.names.compiled = compiled
  generated_eq : assignment.names.generated = ledger.map Prod.fst
  names_nodup : (ledger.map Prod.fst).Nodup
  provisions_nodup : (ledger.map Prod.snd).Nodup
  named : ∀ name provision, (name, provision) ∈ ledger → NamedFor project compiled name provision
  settled : ∀ name provision, (name, provision) ∈ ledger →
    assignment.Settled provision ∨ pending provision
  shared : ∀ provision provider, assignment.shared? provision = some provider →
    (provider.name, provision) ∈ ledger ∧
      ∀ host index, provider.medium.Provides graph host index provision
  modules : ∀ name providers, assignment.modules.find? name = some providers →
    Lists graph ledger name providers
  getters : ∀ key providers, assignment.getters.find? key = some providers →
    Lists graph ledger key.1 providers

theorem records_ofCompiled (project : String) (compiled : List ClassName) (graph : ObjectGraph) :
    Records project compiled graph (fun _ => False) [] (.ofCompiled project compiled) where
  project_eq := rfl
  compiled_eq := rfl
  generated_eq := rfl
  names_nodup := .nil
  provisions_nodup := .nil
  named _ _ h := absurd h List.not_mem_nil
  settled _ _ h := absurd h List.not_mem_nil
  shared provision provider h := by cases provision <;> cases h
  modules _ _ h := by cases h
  getters _ _ h := by cases h

theorem Lists.mono {ledger later : Ledger} (hsuffix : ledger <:+ later) {host : ClassName}
    {providers : List Provider} (h : Lists graph ledger host providers) :
    Lists graph later host providers := by
  intro index provider hprovider
  obtain ⟨provision, hentry, hprovides⟩ := h index provider hprovider
  exact ⟨provision, hsuffix.subset hentry, hprovides⟩

theorem HasShared.mono {ledger later : Ledger} (hsuffix : ledger <:+ later) {provider : Provider}
    (h : HasShared graph ledger provider) : HasShared graph later provider := by
  obtain ⟨provision, hentry, hprovides⟩ := h
  exact ⟨provision, hsuffix.subset hentry, hprovides⟩

theorem Lists.append {ledger : Ledger} {host : ClassName} {providers others : List Provider}
    (h : Lists graph ledger host providers) (hothers : ∀ p ∈ others, HasShared graph ledger p) :
    Lists graph ledger host (providers ++ others) := by
  intro index provider hprovider
  rw [List.getElem?_append] at hprovider
  split at hprovider
  · exact h index provider hprovider
  · obtain ⟨provision, hentry, hprovides⟩ := hothers _ (List.mem_of_getElem? hprovider)
    exact ⟨provision, hentry, hprovides host index⟩

/-! ## Entering names -/

variable {pending later : Provision → Prop} {ledger : Ledger} {before after : Assignment}

theorem Records.not_mem (h : Records project compiled graph pending ledger before)
    {provision : Provision} (hsettled : ¬ before.Settled provision)
    (hpending : ¬ pending provision) : provision ∉ ledger.map Prod.snd := by
  intro hmem
  obtain ⟨⟨name, _⟩, hentry, rfl⟩ := List.mem_map.1 hmem
  rcases h.settled _ _ hentry with hfound | hfound
  · exact hsettled hfound
  · exact hpending hfound

theorem Records.imp (h : Records project compiled graph pending ledger before)
    (himp : ∀ provision, pending provision → before.Settled provision ∨ later provision) :
    Records project compiled graph later ledger before :=
  { h with
    settled := fun name provision hentry =>
      (h.settled name provision hentry).elim .inl (himp provision) }

theorem Records.close (h : Records project compiled graph pending ledger before)
    (hproject : after.project = before.project) (hnames : after.names = before.names)
    (hshared : ∀ provision, after.shared? provision = before.shared? provision)
    (hmodules : ∀ name, (before.modules.find? name).isSome → (after.modules.find? name).isSome)
    (hgetters : ∀ key, (before.getters.find? key).isSome → (after.getters.find? key).isSome)
    (hpending : ∀ provision, pending provision → after.Settled provision)
    (hmodulesListed : ∀ name providers, after.modules.find? name = some providers →
      Lists graph ledger name providers)
    (hgettersListed : ∀ key providers, after.getters.find? key = some providers →
      Lists graph ledger key.1 providers) :
    Records project compiled graph (fun _ => False) ledger after where
  project_eq := hproject.trans h.project_eq
  compiled_eq := hnames ▸ h.compiled_eq
  generated_eq := hnames ▸ h.generated_eq
  names_nodup := h.names_nodup
  provisions_nodup := h.provisions_nodup
  named := h.named
  settled name provision hentry := by
    rcases h.settled name provision hentry with hsettled | hfound
    · exact .inl (hsettled.mono (fun other => by rw [hshared other]; exact id) hmodules hgetters)
    · exact .inl (hpending provision hfound)
  shared provision provider hfound := h.shared provision provider (hshared provision ▸ hfound)
  modules := hmodulesListed
  getters := hgettersListed

theorem Records.enter (h : Records project compiled graph pending ledger before)
    {provision : Provision} (hsettled : ¬ before.Settled provision) (hpending : ¬ pending provision)
    {owner : ClassName} (howner : provision.owner = .ok owner) {medium : Medium}
    {provider : Provider}
    (hends : Ends (Assigning.newProvider owner provision.kind medium) before provider after) :
    Records project compiled graph (fun other => pending other ∨ other = provision)
      ((provider.name, provision) :: ledger) after := by
  -- A provision in the ledger is settled or pending.
  have hnew := h.not_mem hsettled hpending
  obtain ⟨rfl, names, rfl, hhands, index, hname⟩ := Assigning.newProvider_spec hends
  have hsuffix : ledger <:+ (provider.name, provision) :: ledger := List.suffix_cons ..
  have hgenerated := hhands.not_generated
  rw [h.generated_eq] at hgenerated
  have hnamed : NamedFor project compiled provider.name provision := by
    refine ⟨?_, owner, index, howner, ?_⟩
    · rw [← h.compiled_eq]
      exact hhands.not_compiled
    · rw [← h.project_eq]
      exact hname
  constructor
  case project_eq => exact h.project_eq
  case compiled_eq => exact (congrArg NameSupply.compiled hhands.next_eq).trans h.compiled_eq
  case generated_eq =>
    rw [List.map_cons, ← h.generated_eq]
    exact congrArg NameSupply.generated hhands.next_eq
  case names_nodup => exact List.nodup_cons.2 ⟨hgenerated, h.names_nodup⟩
  case provisions_nodup => exact List.nodup_cons.2 ⟨hnew, h.provisions_nodup⟩
  case named =>
    intro name other hentry
    rcases List.mem_cons.1 hentry with heq | hentry
    · cases heq
      exact hnamed
    · exact h.named name other hentry
  case settled =>
    intro name other hentry
    rcases List.mem_cons.1 hentry with heq | hentry
    · cases heq
      exact .inr (.inr rfl)
    · rcases h.settled name other hentry with hfound | hfound
      · exact .inl (hfound.mono (fun _ h => h) (fun _ h => h) fun _ h => h)
      · exact .inr (.inl hfound)
  case shared =>
    intro other held hheld
    obtain ⟨hentry, hprovides⟩ := h.shared other held hheld
    exact ⟨hsuffix.subset hentry, hprovides⟩
  case modules => exact fun name providers hfound => (h.modules name providers hfound).mono hsuffix
  case getters => exact fun key providers hfound => (h.getters key providers hfound).mono hsuffix

/-! ## Shared provisions -/

/-- A step that answers the remembered provider of a shared provision, or makes and remembers
one. -/
inductive Shares (provision : Provision) (medium : Medium) (before : Assignment)
    (provider : Provider) : Assignment → Prop where
  | known (hfound : before.shared? provision = some provider) :
      Shares provision medium before provider before
  | made {owner : ClassName} {between : Assignment} (hnone : before.shared? provision = none)
      (howner : provision.owner = .ok owner)
      (hmade : Ends (Assigning.newProvider owner provision.kind medium) before provider between) :
      Shares provision medium before provider (between.remember provider provision)

theorem Shares.of_known {provision : Provision} {medium : Medium} {held provider : Provider}
    (hfound : before.shared? provision = some held)
    (h : Ends (pure held : Assigning Provider) before provider after) :
    Shares provision medium before provider after := by
  obtain ⟨rfl, rfl⟩ := ends_pure.1 h
  exact .known hfound

theorem Shares.of_new {provision : Provision} {medium : Medium} {owner : ClassName}
    {provider : Provider} (hnone : before.shared? provision = none)
    (howner : provision.owner = .ok owner)
    (h : Ends (do
      let provider ← Assigning.newProvider owner provision.kind medium
      modify fun assignment => assignment.remember provider provision
      return provider : Assigning Provider) before provider after) :
    Shares provision medium before provider after := by
  simp only [ends_bind, Assigning.ends_modify, ends_pure] at h
  obtain ⟨made, between, hmade, -, _, rfl, rfl, rfl⟩ := h
  exact .made hnone howner hmade

theorem shares_ofConstructor {module : ClassName} {point : ProvisionPoint}
    {injectees : List Dependency} (horigin : point.origin = .constructor injectees)
    {provider : Provider} (h : Ends (Assigning.ofPoint module point) before provider after) :
    Shares (.constructor point.owner) (.provisionPoint point) before provider after := by
  simp only [Assigning.ofPoint, horigin, ends_bind, Assigning.ends_get] at h
  obtain ⟨_, _, ⟨rfl, rfl⟩, h⟩ := h
  split at h
  · next held hheld => exact .of_known hheld h
  · next hnone => exact .of_new hnone rfl h

theorem shares_ofBinding {binding : Binding} {provider : Provider}
    (h : Ends (Assigning.ofBinding binding) before provider after) :
    Shares (.binding binding) (.binding binding) before provider after := by
  simp only [Assigning.ofBinding, ends_bind, Assigning.ends_get] at h
  obtain ⟨_, _, ⟨rfl, rfl⟩, h⟩ := h
  split at h
  · next held hheld => exact .of_known hheld h
  · next hnone =>
      obtain ⟨owner, _, hfound, hmade⟩ := ends_bind.1 h
      obtain ⟨howner, rfl⟩ := Assigning.ends_except.1 hfound
      exact .of_new hnone howner hmade

theorem shares_ofFactory {id : Id .factory} {factory : Factory} {provider : Provider}
    (h : Ends (Assigning.ofFactory id factory) before provider after) :
    Shares (.factory factory.name) (.factory id) before provider after := by
  simp only [Assigning.ofFactory, ends_bind, Assigning.ends_get] at h
  obtain ⟨_, _, ⟨rfl, rfl⟩, h⟩ := h
  split at h
  · next held hheld => exact .of_known hheld h
  · next hnone => exact .of_new hnone rfl h

theorem shares_ofContract {id : Id .contract} {contract : Contract} {provider : Provider}
    (h : Ends (Assigning.ofContract id contract) before provider after) :
    Shares (.contract contract.name) (.contract id) before provider after := by
  simp only [Assigning.ofContract, ends_bind, Assigning.ends_get] at h
  obtain ⟨_, _, ⟨rfl, rfl⟩, h⟩ := h
  split at h
  · next held hheld => exact .of_known hheld h
  · next hnone => exact .of_new hnone rfl h

theorem Records.remember (h : Records project compiled graph pending ledger before)
    {provision : Provision} (hshared : provision.IsShared) {provider : Provider}
    (hentry : (provider.name, provision) ∈ ledger)
    (hprovides : ∀ host index, provider.medium.Provides graph host index provision) :
    Records project compiled graph (fun other => pending other ∧ other ≠ provision) ledger
      (before.remember provider provision) where
  project_eq := Assignment.project_remember.trans h.project_eq
  compiled_eq := (congrArg NameSupply.compiled Assignment.names_remember).trans h.compiled_eq
  generated_eq := (congrArg NameSupply.generated Assignment.names_remember).trans h.generated_eq
  names_nodup := h.names_nodup
  provisions_nodup := h.provisions_nodup
  named := h.named
  settled name other hother := by
    by_cases heq : other = provision
    · subst heq
      rw [Assignment.settled_iff_of_isShared hshared, Assignment.shared?_remember hshared,
        if_pos rfl]
      exact .inl rfl
    · refine (h.settled name other hother).imp ?_ fun hfound => ⟨hfound, heq⟩
      refine Assignment.Settled.mono (fun third hthird => ?_) ?_ ?_
      · rw [Assignment.shared?_remember hshared]
        split
        · rfl
        · exact hthird
      · rw [Assignment.modules_remember]
        exact fun _ h => h
      · rw [Assignment.getters_remember]
        exact fun _ h => h
  shared other held hheld := by
    rw [Assignment.shared?_remember hshared] at hheld
    split at hheld
    · next heq =>
        cases hheld
        exact heq ▸ ⟨hentry, hprovides⟩
    · exact h.shared other held hheld
  modules name providers hfound := by
    rw [Assignment.modules_remember] at hfound
    exact h.modules name providers hfound
  getters key providers hfound := by
    rw [Assignment.getters_remember] at hfound
    exact h.getters key providers hfound

theorem Records.share (h : Records project compiled graph pending ledger before)
    {provision : Provision} (hshared : provision.IsShared) (hpending : ¬ pending provision)
    {medium : Medium} (hprovides : ∀ host index, medium.Provides graph host index provision)
    {provider : Provider} (hshares : Shares provision medium before provider after) :
    ∃ later, Records project compiled graph pending later after ∧ ledger <:+ later ∧
      HasShared graph later provider ∧ after.modules = before.modules := by
  cases hshares with
  | known hfound =>
      exact ⟨ledger, h, List.suffix_refl _, ⟨provision, h.shared _ _ hfound⟩, rfl⟩
  | made hnone howner hmade =>
      have hsettled : ¬ before.Settled provision := by
        rw [Assignment.settled_iff_of_isShared hshared, hnone]
        exact Bool.false_ne_true
      have hentered := h.enter hsettled hpending howner hmade
      obtain ⟨hmedium, names, rfl, -⟩ := Assigning.newProvider_spec hmade
      rw [← hmedium] at hprovides
      have hremembered := hentered.remember hshared (List.mem_cons_self ..) hprovides
      refine ⟨_, hremembered.imp ?_, List.suffix_cons .., ?_, Assignment.modules_remember⟩
      · rintro other ⟨hother | hother, hne⟩
        · exact .inr hother
        · exact absurd hother hne
      · exact ⟨provision, List.mem_cons_self .., hprovides⟩

theorem Records.share_mapM {α : Type} {act : α → Assigning Provider} {xs : List α}
    (hact : ∀ x ∈ xs, ∃ provision medium, provision.IsShared ∧
      (∀ host index, medium.Provides graph host index provision) ∧
      ∀ before provider after, Ends (act x) before provider after →
        Shares provision medium before provider after)
    (h : Records project compiled graph pending ledger before)
    (hpending : ∀ provision, provision.IsShared → ¬ pending provision) {providers : List Provider}
    (hends : Ends (xs.mapM act) before providers after) :
    ∃ later, Records project compiled graph pending later after ∧ ledger <:+ later ∧
      (∀ provider ∈ providers, HasShared graph later provider) ∧
      after.modules = before.modules := by
  obtain ⟨later, ⟨hrecords, hmodules⟩, hsuffix, hrelated⟩ :=
    @ends_mapM_noting _ _ α _ _ _ _ Ledger (· <:+ ·) List.suffix_refl
      (fun _ _ _ => List.IsSuffix.trans)
      (fun _ ledger assignment => Records project compiled graph pending ledger assignment ∧
        assignment.modules = before.modules)
      (fun ledger _ _ provider => HasShared graph ledger provider)
      (fun _ _ _ _ _ hsuffix hshared => hshared.mono hsuffix) act xs
      (by
        rintro index x hx notes s provider t ⟨hrecords, hmodules⟩ hstep
        obtain ⟨provision, medium, hshared, hprovides, hshares⟩ := hact x (List.mem_of_getElem? hx)
        obtain ⟨later, hlater, hsuffix, hprovider, hkept⟩ := hrecords.share hshared
          (hpending _ hshared) hprovides (hshares s provider t hstep)
        exact ⟨later, ⟨hlater, hkept.trans hmodules⟩, hsuffix, hprovider⟩)
      _ _ _ _ ⟨h, rfl⟩ hends
  refine ⟨later, hrecords, hsuffix, fun provider hprovider => ?_, hmodules⟩
  obtain ⟨index, hindex⟩ := List.getElem?_of_mem hprovider
  obtain ⟨x, -, hshared⟩ := hrelated index provider hindex
  exact hshared

/-! ## Modules -/

theorem Records.enterMember {module : ClassName} {index : Nat}
    (h : Records project compiled graph (Provision.MemberBelow module index) ledger before)
    (hmodule : before.modules.find? module = none) {provision : Provision}
    (hmember : provision = .method module index ∨ provision = .field module index)
    {medium : Medium} {provider : Provider}
    (hends : Ends (Assigning.newProvider module provision.kind medium) before provider after) :
    Records project compiled graph (Provision.MemberBelow module (index + 1))
        ((provider.name, provision) :: ledger) after ∧
      provider.medium = medium ∧ after.modules = before.modules := by
  have hsettled : ¬ before.Settled provision := by
    rcases hmember with rfl | rfl <;> simp [Assignment.Settled, hmodule]
  have hpending : ¬ Provision.MemberBelow module index provision := by
    rcases hmember with rfl | rfl <;> simp [Provision.MemberBelow]
  have howner : provision.owner = .ok module := by
    rcases hmember with rfl | rfl <;> rfl
  obtain ⟨hmedium, names, hafter, -⟩ := Assigning.newProvider_spec hends
  refine ⟨(h.enter hsettled hpending howner hends).imp ?_, hmedium, by rw [hafter]⟩
  rintro other (hother | rfl)
  · cases other <;> first
      | exact .inr ⟨hother.1, by have := hother.2; omega⟩
      | exact absurd hother id
  · rcases hmember with rfl | rfl <;> exact .inr ⟨rfl, Nat.lt_succ_self _⟩

theorem Records.ofPoint {module : ClassName} {index : Nat}
    (h : Records project compiled graph (Provision.MemberBelow module index) ledger before)
    (hmodule : before.modules.find? module = none) {point : ProvisionPoint} {provider : Provider}
    (hends : Ends (Assigning.ofPoint module point) before provider after) :
    ∃ later, Records project compiled graph (Provision.MemberBelow module (index + 1)) later after ∧
      ledger <:+ later ∧ after.modules = before.modules ∧
      ∃ provision, (provider.name, provision) ∈ later ∧
        provider.medium.Provides graph module index provision := by
  cases horigin : point.origin with
  | constructor injectees =>
      have hshared : Provision.IsShared (.constructor point.owner) := trivial
      obtain ⟨later, hlater, hsuffix, ⟨provision, hentry, hprovides⟩, hmodules⟩ :=
        h.share hshared (Provision.not_memberBelow_of_isShared hshared module index)
          (fun _ _ => .constructor horigin) (shares_ofConstructor horigin hends)
      refine ⟨later, hlater.imp fun other hother => .inr ?_, hsuffix, hmodules, provision, hentry,
        hprovides _ _⟩
      cases other <;> first | exact ⟨hother.1, by have := hother.2; omega⟩ | exact absurd hother id
  | method name injectees =>
      simp only [Assigning.ofPoint, horigin] at hends
      obtain ⟨hrecords, hmedium, hmodules⟩ := h.enterMember hmodule (.inl rfl) hends
      exact ⟨_, hrecords, List.suffix_cons .., hmodules, _, List.mem_cons_self ..,
        hmedium ▸ .method horigin⟩
  | field name =>
      simp only [Assigning.ofPoint, horigin] at hends
      obtain ⟨hrecords, hmedium, hmodules⟩ := h.enterMember hmodule (.inr rfl) hends
      exact ⟨_, hrecords, List.suffix_cons .., hmodules, _, List.mem_cons_self ..,
        hmedium ▸ .field horigin⟩

theorem Records.ofPoints {module : ClassName} {points : List ProvisionPoint}
    (h : Records project compiled graph (fun _ => False) ledger before)
    (hmodule : before.modules.find? module = none) {providers : List Provider}
    (hends : Ends (points.mapM (Assigning.ofPoint module)) before providers after) :
    ∃ later, Records project compiled graph (Provision.MemberBelow module points.length) later
        after ∧ ledger <:+ later ∧ Lists graph later module providers ∧
      after.modules.find? module = none := by
  obtain ⟨later, ⟨hrecords, hnone⟩, hsuffix, hrelated⟩ :=
    @ends_mapM_noting _ _ ProvisionPoint _ _ _ _ Ledger (· <:+ ·) List.suffix_refl
      (fun _ _ _ => List.IsSuffix.trans)
      (fun index ledger assignment =>
        Records project compiled graph (Provision.MemberBelow module index) ledger assignment ∧
          assignment.modules.find? module = none)
      (fun ledger index _ provider => ∃ provision, (provider.name, provision) ∈ ledger ∧
        provider.medium.Provides graph module index provision)
      (fun _ _ _ _ _ hsuffix ⟨provision, hentry, hprovides⟩ =>
        ⟨provision, hsuffix.subset hentry, hprovides⟩)
      (Assigning.ofPoint module) points
      (by
        rintro index point - notes s provider t ⟨hrecords, hnone⟩ hstep
        obtain ⟨later, hlater, hsuffix, hmodules, hprovision⟩ := hrecords.ofPoint hnone hstep
        exact ⟨later, ⟨hlater, hmodules ▸ hnone⟩, hsuffix, hprovision⟩)
      _ _ _ _ ⟨h.imp fun _ hfalse => hfalse.elim, hmodule⟩ hends
  refine ⟨later, hrecords, hsuffix, fun index provider hprovider => ?_, hnone⟩
  obtain ⟨point, -, hprovision⟩ := hrelated index provider hprovider
  exact hprovision

theorem Records.closeModule {module : ClassName} {count : Nat}
    (h : Records project compiled graph (Provision.MemberBelow module count) ledger before)
    {providers : List Provider} (hlists : Lists graph ledger module providers) :
    Records project compiled graph (fun _ => False) ledger
      { before with modules := before.modules.insert module providers } := by
  refine h.close rfl rfl ?_ (fun _ => Table.isSome_find?_insert) (fun _ => id) ?_
    (Assignment.forall_find?_insert h.modules hlists) h.getters
  · exact fun other => by cases other <;> rfl
  · intro provision hpending
    cases provision with
    | method | field => simp [Assignment.Settled, Table.find?_insert, hpending.1]
    | constructor | binding | factory | contract | getter => exact absurd hpending id

theorem Records.ofModule (h : Records project compiled graph (fun _ => False) ledger before)
    {module : Module} {providers : List Provider}
    (hends : Ends (Assigning.ofModule graph module) before providers after) :
    ∃ later, Records project compiled graph (fun _ => False) later after ∧ ledger <:+ later ∧
      Lists graph later module.name providers := by
  simp only [Assigning.ofModule, ends_bind, Assigning.ends_get] at hends
  obtain ⟨_, _, ⟨rfl, rfl⟩, hends⟩ := hends
  split at hends
  · next held hheld =>
      obtain ⟨rfl, rfl⟩ := ends_pure.1 hends
      exact ⟨ledger, h, List.suffix_refl _, h.modules _ _ hheld⟩
  · next hnone =>
      simp only [ends_bind, Assigning.ends_logged, Assigning.ends_modify, ends_pure] at hends
      obtain ⟨points, a, hpoints, bindings, b, hbindings, factories, c, hfactories, contracts, d,
        hcontracts, -, last, ⟨-, rfl⟩, -, _, rfl, rfl, rfl⟩ := hends
      -- Only methods and fields of the module are pending, and these are not shared.
      have hpending : ∀ provision : Provision, provision.IsShared →
          ¬ provision.MemberBelow module.name module.provisionPoints.length :=
        fun provision hshared => Provision.not_memberBelow_of_isShared hshared _ _
      obtain ⟨afterPoints, ha, hsuffixA, hlists, -⟩ := h.ofPoints hnone hpoints
      obtain ⟨afterBindings, hb, hsuffixB, hsharedB, -⟩ := ha.share_mapM
        (fun bound _ => ⟨.binding bound, .binding bound, trivial, fun _ _ => .binding bound,
          fun _ _ _ => shares_ofBinding⟩) hpending hbindings
      obtain ⟨afterFactories, hc, hsuffixC, hsharedC, -⟩ := hb.share_mapM
        (fun entry hentry => ⟨.factory entry.2.name, .factory entry.1, trivial,
          fun _ _ => .factory (Module.get?_of_mem_knownFactories hentry),
          fun _ _ _ => shares_ofFactory⟩) hpending hfactories
      obtain ⟨later, hlater, hsuffixD, hsharedD, -⟩ := hc.share_mapM
        (fun entry hentry => ⟨.contract entry.2.name, .contract entry.1, trivial,
          fun _ _ => .contract (Module.get?_of_mem_knownContracts hentry),
          fun _ _ _ => shares_ofContract⟩) hpending hcontracts
      have hsuffixCD := hsuffixC.trans hsuffixD
      have hsuffixBD := hsuffixB.trans hsuffixCD
      -- What the earlier steps entered is still in the ledger after the later ones.
      have hall : Lists graph later module.name (points ++ bindings ++ factories ++ contracts) := by
        refine .append (.append (.append (hlists.mono hsuffixBD) ?_) ?_) hsharedD
        · exact fun provider hprovider => (hsharedB provider hprovider).mono hsuffixCD
        · exact fun provider hprovider => (hsharedC provider hprovider).mono hsuffixD
      exact ⟨later, hlater.closeModule hall, hsuffixA.trans hsuffixBD, hall⟩

/-! ## Imported contracts -/

theorem Records.enterGetter {contract : ClassName} {lazy : Bool} {index : Nat}
    (h : Records project compiled graph (Provision.GetterBelow contract lazy index) ledger before)
    (hgetters : before.getters.find? (contract, lazy) = none) {medium : Medium}
    {provider : Provider}
    (hends : Ends (Assigning.newProvider contract "MethodProvider" medium) before provider after) :
    Records project compiled graph (Provision.GetterBelow contract lazy (index + 1))
        ((provider.name, .getter contract lazy index) :: ledger) after ∧
      provider.medium = medium ∧ after.getters = before.getters := by
  have hsettled : ¬ before.Settled (.getter contract lazy index) := by
    simp [Assignment.Settled, hgetters]
  have hpending : ¬ Provision.GetterBelow contract lazy index (.getter contract lazy index) := by
    simp [Provision.GetterBelow]
  obtain ⟨hmedium, names, hafter, -⟩ := Assigning.newProvider_spec hends
  refine ⟨(h.enter hsettled hpending rfl hends).imp ?_, hmedium, by rw [hafter]⟩
  rintro other (hother | rfl)
  · cases other with
    | getter => exact .inr ⟨hother.1, hother.2.1, by have := hother.2.2; omega⟩
    | constructor | method | field | binding | factory | contract => exact absurd hother id
  · exact .inr ⟨rfl, rfl, Nat.lt_succ_self _⟩

theorem Records.closeImport {contract : ClassName} {lazy : Bool} {count : Nat}
    (h : Records project compiled graph (Provision.GetterBelow contract lazy count) ledger before)
    {providers : List Provider} (hlists : Lists graph ledger contract providers) :
    Records project compiled graph (fun _ => False) ledger
      { before with getters := before.getters.insert (contract, lazy) providers } := by
  refine h.close rfl rfl ?_ (fun _ => id) (fun _ => Table.isSome_find?_insert) ?_ h.modules
    (Assignment.forall_find?_insert h.getters hlists)
  · exact fun other => by cases other <;> rfl
  · intro provision hpending
    cases provision with
    | getter => simp [Assignment.Settled, Table.find?_insert, hpending.1, hpending.2.1]
    | constructor | method | field | binding | factory | contract => exact absurd hpending id

theorem Records.ofImport (h : Records project compiled graph (fun _ => False) ledger before)
    {id : Id .contract} {contract : Contract} (hget : graph.contracts.get? id = some contract)
    {lazy : Bool} {providers : List Provider}
    (hends : Ends (Assigning.ofImport id contract lazy) before providers after) :
    ∃ later, Records project compiled graph (fun _ => False) later after ∧ ledger <:+ later ∧
      Lists graph later contract.name providers := by
  simp only [Assigning.ofImport, ends_bind, Assigning.ends_get] at hends
  obtain ⟨_, _, ⟨rfl, rfl⟩, hends⟩ := hends
  split at hends
  · next held hheld =>
      obtain ⟨rfl, rfl⟩ := ends_pure.1 hends
      exact ⟨ledger, h, List.suffix_refl _, h.getters _ _ hheld⟩
  · next hnone =>
      simp only [ends_bind, Assigning.ends_modify, ends_pure] at hends
      obtain ⟨made, last, hmade, -, _, rfl, rfl, rfl⟩ := hends
      obtain ⟨later, ⟨hrecords, -⟩, hsuffix, hrelated⟩ :=
        @ends_mapM_noting _ _ Getter _ _ _ _ Ledger (· <:+ ·) List.suffix_refl
          (fun _ _ _ => List.IsSuffix.trans)
          (fun index ledger assignment =>
            Records project compiled graph (Provision.GetterBelow contract.name lazy index) ledger
              assignment ∧ assignment.getters.find? (contract.name, lazy) = none)
          (fun ledger index _ provider => ∃ provision, (provider.name, provision) ∈ ledger ∧
            provider.medium.Provides graph contract.name index provision)
          (fun _ _ _ _ _ hsuffix hentered =>
            hentered.imp fun _ h => ⟨hsuffix.subset h.1, h.2⟩)
          _ contract.getters
          (by
            rintro index served - notes s provider t ⟨hrecords, hnone⟩ hstep
            obtain ⟨hentered, hmedium, hgetters⟩ := hrecords.enterGetter hnone hstep
            exact ⟨_, ⟨hentered, hgetters ▸ hnone⟩, List.suffix_cons .., _, List.mem_cons_self ..,
              hmedium ▸ .getter hget⟩)
          _ _ _ _ ⟨h.imp fun _ hfalse => hfalse.elim, hnone⟩ hmade
      have hlists : Lists graph later contract.name providers := fun index provider hprovider =>
        (hrelated index provider hprovider).elim fun _ hprovision => hprovision.2
      exact ⟨later, hrecords.closeImport hlists, hsuffix, hlists⟩

end Ledger

end InjectionCompiler
