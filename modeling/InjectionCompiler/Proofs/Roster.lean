import InjectionCompiler.Proofs.Ledger
import InjectionCompiler.Proofs.Plan
import InjectionCompiler.Proofs.Range

/-!
# One provider for each source

A plan lists its providers by the module or the imported contract that they are for.  Two entries
bear one name exactly when they stand for one source, and no entry is lost when the providers are
put into one list.
-/

namespace InjectionCompiler

/-! ## Entries of a plan -/

/-- Where a plan lists a provider. -/
inductive Listing where
  | source (module : ClassName) (index : Nat)
  | getter (contract : ClassName) (index : Nat)
  deriving DecidableEq, Repr

namespace Listing

def host : Listing → ClassName
  | .source module _ => module
  | .getter contract _ => contract

def index : Listing → Nat
  | .source _ index => index
  | .getter _ index => index

end Listing

/-- The provider at a place of the plan. -/
def Plan.listed? (plan : Plan) : Listing → Option Provider
  | .source module index => plan.byModule.find? module >>= fun providers => providers[index]?
  | .getter contract index => plan.byContract.find? contract >>= fun providers => providers[index]?

/-- The sources of a module, in order. -/
def Module.sources (module : Module) : List Medium :=
  module.provisionPoints.map .provisionPoint ++ module.bindings.map .binding ++
    module.factories.map .factory ++ module.contracts.map .contract

/-- The entries at two places stand for the same source: for one constructor, binding, factory or
contract, or else for one method, field or getter, which is the one at its place. -/
inductive SameSource (a b : Listing) : Medium → Medium → Prop where
  | constructor {first second : ProvisionPoint} (hfirst : first.IsConstructor)
      (hsecond : second.IsConstructor) (howner : first.owner = second.owner) :
      SameSource a b (.provisionPoint first) (.provisionPoint second)
  | binding (bound : Binding) : SameSource a b (.binding bound) (.binding bound)
  | factory (id : Id .factory) : SameSource a b (.factory id) (.factory id)
  | contract (id : Id .contract) : SameSource a b (.contract id) (.contract id)
  | member {first second : ProvisionPoint} (hfirst : ¬ first.IsConstructor)
      (hsecond : ¬ second.IsConstructor) (hplace : a = b) :
      SameSource a b (.provisionPoint first) (.provisionPoint second)
  | getter {id : Id .contract} {lazy : Bool} {first second : Getter} (hplace : a = b) :
      SameSource a b (.getter id lazy first) (.getter id lazy second)

variable {path : ClassPath} {graph : ObjectGraph} {before after : Assignment} {plan : Plan}
  {project : String} {compiled : List ClassName}

/-! ## Ids in range -/

namespace Module

theorem map_fst_of_lookups {ι α : Type} {lookup : ι → Option α} {ids : List ι}
    (h : ∀ id ∈ ids, ∃ item, lookup id = some item) :
    (ids.filterMap fun id => (lookup id).map fun item => (id, item)).map Prod.fst = ids := by
  induction ids with
  | nil => rfl
  | cons id ids ih =>
      obtain ⟨item, hitem⟩ := h id (List.mem_cons_self ..)
      rw [List.filterMap_cons_some (by rw [hitem]; rfl), List.map_cons,
        ih fun other hother => h other (List.mem_cons_of_mem _ hother)]

theorem media_eq_sources {module : Module} (hgraph : graph.Grounded project)
    (hmodule : module ∈ graph.modules.items) : module.media graph = module.sources := by
  have hfactories : (module.knownFactories graph).map Prod.fst = module.factories :=
    map_fst_of_lookups (hgraph.hosted_factories module hmodule)
  have hcontracts : (module.knownContracts graph).map Prod.fst = module.contracts :=
    map_fst_of_lookups (hgraph.hosted_contracts module hmodule)
  have hfactoryMedia := congrArg (List.map Medium.factory) hfactories
  have hcontractMedia := congrArg (List.map Medium.contract) hcontracts
  rw [List.map_map] at hfactoryMedia hcontractMedia
  rw [media, sources, ← hfactoryMedia, ← hcontractMedia]
  rfl

end Module

/-! ## The ledger of a plan -/

namespace Ledger

theorem Records.entries {α : Type} {act : α → Assigning (ClassName × List Provider)} {xs : List α}
    (hact : ∀ x ∈ xs, ∀ ledger s entry t,
      Records project compiled graph (fun _ => False) ledger s → Ends (act x) s entry t →
        ∃ later, Records project compiled graph (fun _ => False) later t ∧ ledger <:+ later ∧
          Lists graph later entry.1 entry.2)
    {ledger : Ledger} (h : Records project compiled graph (fun _ => False) ledger before)
    {entries : List (ClassName × List Provider)} (hends : Ends (xs.mapM act) before entries after) :
    ∃ later, Records project compiled graph (fun _ => False) later after ∧ ledger <:+ later ∧
      ∀ entry ∈ entries, Lists graph later entry.1 entry.2 := by
  obtain ⟨later, hrecords, hsuffix, hlists⟩ :=
    @ends_mapM_noting _ _ α _ _ _ _ Ledger (· <:+ ·) List.suffix_refl
      (fun _ _ _ => List.IsSuffix.trans)
      (fun _ ledger assignment =>
        Records project compiled graph (fun _ => False) ledger assignment)
      (fun ledger _ _ (entry : ClassName × List Provider) => Lists graph ledger entry.1 entry.2)
      (fun _ _ _ _ _ hsuffix hlists => hlists.mono hsuffix) _ _
      (fun index x hx ledger s entry t => hact x (List.mem_of_getElem? hx) ledger s entry t)
      _ _ _ _ h hends
  refine ⟨later, hrecords, hsuffix, fun entry hentry => ?_⟩
  obtain ⟨index, hindex⟩ := List.getElem?_of_mem hentry
  obtain ⟨-, -, hlisted⟩ := hlists index entry hindex
  exact hlisted

theorem Records.name_eq_iff {pending : Provision → Prop} {ledger : Ledger}
    (h : Records project compiled graph pending ledger before) {a b : ClassName} {x y : Provision}
    (ha : (a, x) ∈ ledger) (hb : (b, y) ∈ ledger) : a = b ↔ x = y := by
  constructor
  · intro heq
    exact congrArg Prod.snd (List.inj_on_of_nodup_map h.names_nodup ha hb heq)
  · intro heq
    exact congrArg Prod.fst (List.inj_on_of_nodup_map h.provisions_nodup ha hb heq)

def Covers (graph : ObjectGraph) (ledger : Ledger) (plan : Plan) : Prop :=
  ∀ place provider, plan.listed? place = some provider →
    ∃ provision, (provider.name, provision) ∈ ledger ∧
      provider.medium.Provides graph place.host place.index provision

end Ledger

open Ledger in
theorem Plan.exists_ledger_of_entries
    {moduleEntries contractEntries : List (ClassName × List Provider)}
    {middle assigned : Assignment}
    (hmodules : Ends ((graph.inputModules path).mapM fun module => do
      let providers ← Assigning.ofModule graph module
      return (module.name, providers)) (.ofCompiled project compiled) moduleEntries middle)
    (hcontracts : Ends ((graph.inputImports path).mapM fun (id, contract, lazy) => do
      let providers ← Assigning.ofImport id contract lazy
      return (contract.name, providers)) middle contractEntries assigned)
    (hbyModule : plan.byModule = Table.ofList moduleEntries)
    (hbyContract : plan.byContract = Table.ofList contractEntries) :
    ∃ ledger, Records project compiled graph (fun _ => False) ledger assigned ∧
      Covers graph ledger plan := by
  obtain ⟨early, hearly, -, hmoduleLists⟩ := Records.entries (by
    intro module _ ledger s entry t hledger hstep
    simp only [ends_bind, ends_pure] at hstep
    obtain ⟨providers, _, hproviders, rfl, rfl⟩ := hstep
    exact hledger.ofModule hproviders) (records_ofCompiled project compiled graph) hmodules
  obtain ⟨ledger, hrecords, hsuffix, hcontractLists⟩ := Records.entries (by
    rintro ⟨id, contract, lazy⟩ himport ledger s entry t hledger hstep
    simp only [ends_bind, ends_pure] at hstep
    obtain ⟨providers, _, hproviders, rfl, rfl⟩ := hstep
    exact hledger.ofImport (ObjectGraph.get?_of_mem_inputImports himport) hproviders) hearly
      hcontracts
  refine ⟨ledger, hrecords, fun place provider hplace => ?_⟩
  cases place with
  | source module index =>
      obtain ⟨providers, hfind, hprovider⟩ := Option.bind_eq_some_iff.1 hplace
      rw [hbyModule] at hfind
      have hlists := hmoduleLists _ (Table.mem_of_find?_ofList hfind)
      exact hlists.mono hsuffix index provider hprovider
  | getter contract index =>
      obtain ⟨providers, hfind, hprovider⟩ := Option.bind_eq_some_iff.1 hplace
      rw [hbyContract] at hfind
      exact hcontractLists _ (Table.mem_of_find?_ofList hfind) index provider hprovider

open Ledger in
theorem Plan.exists_ledger
    (h : Ends (Assigning.composePlan path graph) (.ofCompiled project compiled) plan after) :
    ∃ ledger assigned named, Records project compiled graph (fun _ => False) ledger assigned ∧
      Covers graph ledger plan ∧
      Ends (Assigning.composeInvaders path (plan.keys graph)) assigned plan.invaders named ∧
      Ends (Assigning.composeRegistry (plan.keys graph)) named plan.registry after := by
  obtain ⟨moduleEntries, contractEntries, middle, assigned, named, hmodules, hcontracts, hbyModule,
    hbyContract, -, -, -, hinvaders, hregistry⟩ := Assigning.exists_steps_of_composePlan h
  obtain ⟨ledger, hrecords, hcovers⟩ :=
    exists_ledger_of_entries hmodules hcontracts hbyModule hbyContract
  exact ⟨ledger, assigned, named, hrecords, hcovers, hinvaders, hregistry⟩

namespace Plan

/-! ## The media of entries -/

variable {assigned : Assignment}

inductive MediumAt (path : ClassPath) (graph : ObjectGraph) : Listing → Medium → Prop where
  | source {module : Module} {index : Nat} {medium : Medium}
      (hmodule : module ∈ graph.inputModules path) (hmedium : medium ∈ module.media graph) :
      MediumAt path graph (.source module.name index) medium
  | getter {id : Id .contract} {contract : Contract} {index : Nat} {lazy : Bool} {served : Getter}
      (hget : graph.contracts.get? id = some contract) :
      MediumAt path graph (.getter contract.name index) (.getter id lazy served)

theorem mediumAt_of_listed (hplan : plan.Complete path graph assigned) {place : Listing}
    {provider : Provider} (h : plan.listed? place = some provider) :
    MediumAt path graph place provider.medium := by
  cases place with
  | source name index =>
      obtain ⟨providers, hfind, hprovider⟩ := Option.bind_eq_some_iff.1 h
      obtain ⟨module, hmodule, rfl, hserves⟩ :=
        hplan.of_module _ _ (Table.find?_eq_some_iff.1 hfind)
      refine .source hmodule ?_
      rw [← Assignment.map_medium_of_serves hserves]
      exact List.mem_map_of_mem (List.mem_of_getElem? hprovider)
  | getter name index =>
      obtain ⟨providers, hfind, hprovider⟩ := Option.bind_eq_some_iff.1 h
      obtain ⟨id, contract, lazy, hget, rfl, hmedia⟩ :=
        hplan.of_import _ _ (Table.find?_eq_some_iff.1 hfind)
      have hmedium : provider.medium ∈ providers.map Provider.medium :=
        List.mem_map_of_mem (List.mem_of_getElem? hprovider)
      rw [hmedia] at hmedium
      obtain ⟨served, -, hserved⟩ := List.mem_map.1 hmedium
      rw [← hserved]
      exact .getter hget

theorem MediumAt.eq_source {place : Listing} {point : ProvisionPoint}
    (h : MediumAt path graph place (.provisionPoint point)) :
    place = .source place.host place.index ∧ graph.HasPoint point := by
  cases h with
  | source hmodule hmedium =>
      refine ⟨rfl, _, (ObjectGraph.mem_inputModules.1 hmodule).1, ?_⟩
      rcases Module.mem_media.1 hmedium with
        ⟨other, hpoint, heq⟩ | ⟨_, -, heq⟩ | ⟨_, -, heq⟩ | ⟨_, -, heq⟩ <;> cases heq
      exact hpoint

theorem MediumAt.eq_getter {place : Listing} {id : Id .contract} {lazy : Bool} {served : Getter}
    (h : MediumAt path graph place (.getter id lazy served)) {contract : Contract}
    (hget : graph.contracts.get? id = some contract) :
    place = .getter contract.name place.index := by
  cases h with
  | source hmodule hmedium =>
      rcases Module.mem_media.1 hmedium with
        ⟨_, -, heq⟩ | ⟨_, -, heq⟩ | ⟨_, -, heq⟩ | ⟨_, -, heq⟩ <;> cases heq
  | getter hheld =>
      cases hget.symm.trans hheld
      rfl

/-! ## Names and sources -/

theorem not_isConstructor_of_method {point : ProvisionPoint} {name : String}
    {injectees : List Dependency} (h : point.origin = .method name injectees) :
    ¬ point.IsConstructor := by
  rintro ⟨others, heq⟩
  cases h.symm.trans heq

theorem not_isConstructor_of_field {point : ProvisionPoint} {name : String}
    (h : point.origin = .field name) : ¬ point.IsConstructor := by
  rintro ⟨injectees, heq⟩
  cases h.symm.trans heq

theorem provision_eq_of_isConstructor {host : ClassName} {index : Nat} {point : ProvisionPoint}
    {x : Provision} (h : (Medium.provisionPoint point).Provides graph host index x)
    (hpoint : point.IsConstructor) : x = .constructor point.owner := by
  cases h with
  | constructor => rfl
  | method horigin => exact absurd hpoint (not_isConstructor_of_method horigin)
  | field horigin => exact absurd hpoint (not_isConstructor_of_field horigin)

theorem sameSource_of_provides (hgraph : graph.WellFormed) {a b : Listing} {m n : Medium}
    (ha : MediumAt path graph a m) (hb : MediumAt path graph b n) {x y : Provision}
    (hm : m.Provides graph a.host a.index x) (hn : n.Provides graph b.host b.index y)
    (heq : x = y) : SameSource a b m n := by
  -- Provisions of different kinds differ, which leaves the two media of one kind.
  cases hm <;> cases hn <;> simp only [reduceCtorEq, Provision.constructor.injEq,
    Provision.method.injEq, Provision.field.injEq, Provision.binding.injEq, Provision.factory.injEq,
    Provision.contract.injEq, Provision.getter.injEq] at heq
  case constructor.constructor hfirst _ _ hsecond =>
    exact .constructor ⟨_, hfirst⟩ ⟨_, hsecond⟩ heq
  case method.method hfirst _ _ _ hsecond =>
    have hplace : a = b := by rw [ha.eq_source.1, hb.eq_source.1, heq.1, heq.2]
    exact .member (not_isConstructor_of_method hfirst) (not_isConstructor_of_method hsecond) hplace
  case field.field hfirst _ _ hsecond =>
    have hplace : a = b := by rw [ha.eq_source.1, hb.eq_source.1, heq.1, heq.2]
    exact .member (not_isConstructor_of_field hfirst) (not_isConstructor_of_field hsecond) hplace
  case binding.binding =>
    cases heq
    exact .binding _
  case factory.factory hfirst _ _ hsecond =>
    obtain rfl := hgraph.factories_named.id_unique hfirst hsecond heq
    exact .factory _
  case contract.contract hfirst _ _ hsecond =>
    obtain rfl := hgraph.contracts_named.id_unique hfirst hsecond heq
    exact .contract _
  case getter.getter hfirst _ _ _ _ hsecond =>
    obtain ⟨hname, rfl, hindex⟩ := heq
    obtain rfl := hgraph.contracts_named.id_unique hfirst hsecond hname
    have hplace : a = b := by rw [ha.eq_getter hfirst, hb.eq_getter hsecond, hname, hindex]
    exact .getter hplace

theorem provision_eq_of_sameSource {a b : Listing} {m n : Medium} {x y : Provision}
    (hm : m.Provides graph a.host a.index x) (hn : n.Provides graph b.host b.index y)
    (h : SameSource a b m n) : a = b ∨ x = y := by
  cases h with
  | member hfirst hsecond hplace => exact .inl hplace
  | getter hplace => exact .inl hplace
  | constructor hfirst hsecond howner =>
      rw [provision_eq_of_isConstructor hm hfirst, provision_eq_of_isConstructor hn hsecond, howner]
      exact .inr rfl
  | binding bound =>
      cases hm
      cases hn
      exact .inr rfl
  | factory id =>
      cases hm with
      | factory hfirst =>
          cases hn with
          | factory hsecond =>
              cases hfirst.symm.trans hsecond
              exact .inr rfl
  | contract id =>
      cases hm with
      | contract hfirst =>
          cases hn with
          | contract hsecond =>
              cases hfirst.symm.trans hsecond
              exact .inr rfl

theorem medium_eq_of_sameSource (hgraph : graph.WellFormed) {a b : Listing} {m n : Medium}
    (ha : MediumAt path graph a m) (hb : MediumAt path graph b n) (h : SameSource a b m n) :
    a = b ∨ m = n := by
  cases h with
  | member hfirst hsecond hplace => exact .inl hplace
  | getter hplace => exact .inl hplace
  | constructor hfirst hsecond howner =>
      obtain ⟨-, module, hmodule, hpoint⟩ := ha.eq_source
      obtain ⟨-, other, hother, hotherPoint⟩ := hb.eq_source
      exact .inr (congrArg Medium.provisionPoint (hgraph.constructor_unique module hmodule other
        hother _ hpoint _ hotherPoint hfirst hsecond howner))
  | binding bound => exact .inr rfl
  | factory id => exact .inr rfl
  | contract id => exact .inr rfl

section

variable (hgraph : graph.WellFormed) (hplan : plan.Complete path graph assigned) {ledger : Ledger}
  {pending : Provision → Prop} {recorded : Assignment}
  (hrecords : Ledger.Records project compiled graph pending ledger recorded)
  (hcovers : ledger.Covers graph plan)
  {a b : Listing} {p q : Provider} (hp : plan.listed? a = some p) (hq : plan.listed? b = some q)

include hgraph hplan hrecords hcovers hp hq

theorem name_eq_iff_sameSource : p.name = q.name ↔ SameSource a b p.medium q.medium := by
  obtain ⟨x, hx, hxprovides⟩ := hcovers a p hp
  obtain ⟨y, hy, hyprovides⟩ := hcovers b q hq
  rw [hrecords.name_eq_iff hx hy]
  constructor
  · exact sameSource_of_provides hgraph (mediumAt_of_listed hplan hp) (mediumAt_of_listed hplan hq)
      hxprovides hyprovides
  · intro hsame
    rcases provision_eq_of_sameSource hxprovides hyprovides hsame with rfl | heq
    · cases hp.symm.trans hq
      exact (hrecords.name_eq_iff hx hy).1 rfl
    · exact heq

/-- Entries of one name are one provider. -/
theorem eq_of_name_eq (hname : p.name = q.name) : p = q := by
  have hsame := (name_eq_iff_sameSource hgraph hplan hrecords hcovers hp hq).1 hname
  have hmedium := medium_eq_of_sameSource hgraph (mediumAt_of_listed hplan hp)
    (mediumAt_of_listed hplan hq) hsame
  rcases hmedium with rfl | hmedium
  · exact Option.some.inj (hp.symm.trans hq)
  · cases p
    cases q
    cases hname
    cases hmedium
    rfl

end

/-! ## The roster -/

/-- Every source of the input has its provider at its place, and whatever is listed is generated
once. -/
structure Roster (path : ClassPath) (graph : ObjectGraph) (plan : Plan) : Prop where
  modules : ∀ name, (plan.byModule.find? name).isSome ↔
    ∃ module ∈ graph.inputModules path, module.name = name
  sources : ∀ module ∈ graph.inputModules path, ∃ providers,
    plan.byModule.find? module.name = some providers ∧
      providers.map Provider.medium = module.sources
  getters : ∀ module ∈ graph.inputModules path, ∀ id site lazy,
    .contract id site lazy ∈ module.imports → ∃ contract providers first,
      graph.contracts.get? id = some contract ∧
        plan.byContract.find? contract.name = some providers ∧
        providers.map Provider.medium = contract.getters.map (.getter id first)
  name_eq_iff : ∀ a b p q, plan.listed? a = some p → plan.listed? b = some q →
    (p.name = q.name ↔ SameSource a b p.medium q.medium)
  names_nodup : (plan.providers.map Provider.name).Nodup
  mem_providers : ∀ provider,
    provider ∈ plan.providers ↔ ∃ place, plan.listed? place = some provider

theorem mem_flatten_values_iff {table : Table ClassName (List Provider)} {provider : Provider} :
    provider ∈ table.values.flatten ↔
      ∃ (name : ClassName) (index : Nat),
        (table.find? name >>= fun providers => providers[index]?) = some provider := by
  constructor
  · intro h
    obtain ⟨providers, hproviders, hmem⟩ := List.mem_flatten.1 h
    obtain ⟨⟨name, held⟩, hentry, rfl⟩ := List.mem_map.1 hproviders
    obtain ⟨index, hindex⟩ := List.getElem?_of_mem hmem
    exact ⟨name, index, Option.bind_eq_some_iff.2
      ⟨held, Table.find?_eq_some_iff.2 hentry, hindex⟩⟩
  · rintro ⟨name, index, h⟩
    obtain ⟨providers, hfind, hindex⟩ := Option.bind_eq_some_iff.1 h
    exact List.mem_flatten.2
      ⟨providers, Table.mem_values_of_find? hfind, List.mem_of_getElem? hindex⟩

theorem exists_listed_iff {provider : Provider} :
    (∃ place, plan.listed? place = some provider) ↔
      provider ∈ plan.byModule.values.flatten ++ plan.byContract.values.flatten := by
  rw [List.mem_append, mem_flatten_values_iff, mem_flatten_values_iff]
  constructor
  · rintro ⟨name | name, h⟩
    · exact .inl ⟨name, _, h⟩
    · exact .inr ⟨name, _, h⟩
  · rintro (⟨name, index, h⟩ | ⟨name, index, h⟩)
    · exact ⟨.source name index, h⟩
    · exact ⟨.getter name index, h⟩

theorem mem_providers_iff (hgraph : graph.WellFormed) (hplan : plan.Complete path graph assigned)
    {ledger : Ledger} {pending : Provision → Prop} {recorded : Assignment}
    (hrecords : Ledger.Records project compiled graph pending ledger recorded)
    (hcovers : ledger.Covers graph plan) {provider : Provider} :
    provider ∈ plan.providers ↔ ∃ place, plan.listed? place = some provider := by
  rw [exists_listed_iff, hplan.providers_eq]
  constructor
  · exact fun hmem => (mem_of_mem_firstsFrom hmem).1
  · intro hlisted
    have hname : provider.name ∈ (firsts Provider.name
        (plan.byModule.values.flatten ++ plan.byContract.values.flatten)).map Provider.name :=
      key_mem_map_firstsFrom.2 ⟨List.mem_map_of_mem hlisted, List.not_mem_nil⟩
    obtain ⟨held, hheld, hheldName⟩ := List.mem_map.1 hname
    obtain ⟨a, ha⟩ := exists_listed_iff.2 (mem_of_mem_firstsFrom hheld).1
    obtain ⟨b, hb⟩ := exists_listed_iff.2 hlisted
    rw [← eq_of_name_eq hgraph hplan hrecords hcovers ha hb hheldName]
    exact hheld

theorem roster_of_ends (hgraph : graph.WellFormed) (hgrounded : graph.Grounded project)
    (hplan : plan.Complete path graph assigned) {own : String}
    (h : Ends (Assigning.composePlan path graph) (.ofCompiled own compiled) plan after) :
    plan.Roster path graph := by
  obtain ⟨ledger, recorded, -, hrecords, hcovers, -, -⟩ := exists_ledger h
  constructor
  case modules =>
    intro name
    constructor
    · intro hsome
      obtain ⟨providers, hfind⟩ := Option.isSome_iff_exists.1 hsome
      obtain ⟨module, hmodule, hname, -⟩ := hplan.of_module _ _ (Table.find?_eq_some_iff.1 hfind)
      exact ⟨module, hmodule, hname⟩
    · rintro ⟨module, hmodule, rfl⟩
      obtain ⟨providers, hfind, -⟩ := hplan.module_served module hmodule
      exact Option.isSome_of_mem hfind
  case sources =>
    intro module hmodule
    obtain ⟨providers, hfind, hserves⟩ := hplan.module_served module hmodule
    refine ⟨providers, hfind, ?_⟩
    rw [Assignment.map_medium_of_serves hserves]
    exact Module.media_eq_sources hgrounded (ObjectGraph.mem_inputModules.1 hmodule).1
  case getters =>
    intro module hmodule id site lazy himport
    obtain ⟨contract, hcontract⟩ := hgrounded.imported_contracts module
      (ObjectGraph.mem_inputModules.1 hmodule).1 id site lazy himport
    obtain ⟨providers, first, hfind, hmedia⟩ :=
      hplan.import_served module hmodule id site lazy contract himport hcontract
    exact ⟨contract, providers, first, hcontract, hfind, hmedia⟩
  case name_eq_iff =>
    exact fun a b p q hp hq => name_eq_iff_sameSource hgraph hplan hrecords hcovers hp hq
  case names_nodup =>
    rw [hplan.providers_eq]
    exact nodup_map_firstsFrom Provider.name [] _
  case mem_providers => exact fun _ => mem_providers_iff hgraph hplan hrecords hcovers

end Plan

end InjectionCompiler
