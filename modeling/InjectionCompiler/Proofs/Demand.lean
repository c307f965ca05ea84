import InjectionCompiler.Proofs.Census
import InjectionCompiler.Proofs.Plan
import InjectionCompiler.Proofs.Stability

/-!
# The demand for names

How many names of an owner and a kind a plan takes depends only on what the modules of the input
show.  The plan gets its providers when each owner and kind has that many free numbers, and then
their names are those of the first free numbers.
-/

namespace InjectionCompiler

namespace Provision

instance : DecidablePred IsShared
  | .constructor _ => isTrue trivial
  | .binding _ => isTrue trivial
  | .factory _ => isTrue trivial
  | .contract _ => isTrue trivial
  | .method _ _ => isFalse id
  | .field _ _ => isFalse id
  | .getter _ _ _ => isFalse id

/-- What counts the names of a provision: the owner, if it has one, and the kind. -/
abbrev Need := Except Failure ClassName × String

def need (provision : Provision) : Need :=
  (provision.owner, provision.kind)

def distinct (listed : Multiset Provision) : Multiset Provision :=
  (listed.filter IsShared).dedup + listed.filter fun provision => ¬ provision.IsShared

theorem distinct_cons_of_mem {provision : Provision} {listed : Multiset Provision}
    (hshared : provision.IsShared) (h : provision ∈ distinct listed) :
    distinct (provision ::ₘ listed) = distinct listed := by
  have hmem : provision ∈ listed.filter IsShared := by
    rw [distinct, Multiset.mem_add, Multiset.mem_dedup] at h
    exact h.resolve_right fun hout => (Multiset.mem_filter.1 hout).2 hshared
  have hout : (provision ::ₘ listed).filter (fun other => ¬ other.IsShared) =
      listed.filter fun other => ¬ other.IsShared :=
    Multiset.filter_cons_of_neg (p := fun other => ¬ other.IsShared) listed (not_not.2 hshared)
  rw [distinct, distinct, Multiset.filter_cons_of_pos _ hshared, Multiset.dedup_cons_of_mem hmem,
    hout]

theorem distinct_cons_of_new {provision : Provision} {listed : Multiset Provision}
    (h : provision.IsShared → provision ∉ distinct listed) :
    distinct (provision ::ₘ listed) = provision ::ₘ distinct listed := by
  by_cases hshared : provision.IsShared
  · have hnew : provision ∉ listed.filter IsShared := fun hmem =>
      h hshared (Multiset.mem_add.2 (.inl (Multiset.mem_dedup.2 hmem)))
    have hout : (provision ::ₘ listed).filter (fun other => ¬ other.IsShared) =
        listed.filter fun other => ¬ other.IsShared :=
      Multiset.filter_cons_of_neg (p := fun other => ¬ other.IsShared) listed (not_not.2 hshared)
    rw [distinct, distinct, Multiset.filter_cons_of_pos _ hshared,
      Multiset.dedup_cons_of_notMem hnew, hout, Multiset.cons_add]
  · have hin : (provision ::ₘ listed).filter (fun other => ¬ other.IsShared) =
        provision ::ₘ listed.filter fun other => ¬ other.IsShared :=
      Multiset.filter_cons_of_pos (p := fun other => ¬ other.IsShared) listed hshared
    rw [distinct, distinct, Multiset.filter_cons_of_neg _ hshared, hin, Multiset.add_cons]

theorem distinct_le_add (listed others : Multiset Provision) :
    distinct listed ≤ distinct (listed + others) := by
  rw [distinct, distinct, Multiset.filter_add, Multiset.filter_add]
  refine add_le_add (Multiset.le_dedup.2 ⟨?_, Multiset.nodup_dedup _⟩) (Multiset.le_add_right _ _)
  exact (Multiset.dedup_le _).trans (Multiset.le_add_right _ _)

end Provision

open Provision (distinct)

namespace Ledger

variable {tally : Tally} {project : String} {compiled : List ClassName} {ledger after : Ledger}
  {listed : Multiset Provision}

theorem Enters.provisions_eq {provisions : List Provision} {names : List ClassName}
    (h : Enters tally project compiled ledger provisions names after)
    (hledger : (ledger.map Prod.snd : Multiset Provision) = distinct listed) :
    (after.map Prod.snd : Multiset Provision) = distinct (listed + provisions) := by
  induction h generalizing listed with
  | nil => rw [hledger, Multiset.coe_nil, add_zero]
  | @known ledger _ provision _ name _ hshared hentry _ ih =>
      have hmem : provision ∈ distinct listed := by
        rw [← hledger, Multiset.mem_coe]
        exact List.mem_map_of_mem hentry
      rw [ih (hledger.trans (Provision.distinct_cons_of_mem hshared hmem).symm),
        ← Multiset.cons_coe, Multiset.cons_add, Multiset.add_cons]
  | @named ledger _ provision _ name _ hnew _ _ ih =>
      have hnew' : provision.IsShared → provision ∉ distinct listed := by
        rw [← hledger]
        exact hnew
      have hcons := (congrArg (provision ::ₘ ·) hledger).trans
        (Provision.distinct_cons_of_new hnew').symm
      rw [ih hcons, ← Multiset.cons_coe, Multiset.cons_add, Multiset.add_cons]

theorem namesOf_eq (hledger : (ledger.map Prod.snd : Multiset Provision) = distinct listed)
    (owner : ClassName) (kind : String) :
    namesOf ledger owner kind = ((distinct listed).map Provision.need).count (.ok owner, kind) := by
  rw [Multiset.count_map, ← hledger, namesOf, ← Multiset.coe_countP,
    Multiset.countP_eq_card_filter]
  refine congrArg Multiset.card (Multiset.filter_congr fun provision _ => ?_)
  rw [Provision.IsOf, Provision.need, Prod.mk.injEq, eq_comm, eq_comm (b := kind)]

theorem HaltsAt.exhausted {provisions : List Provision} {failure : Failure}
    {assignment : Assignment}
    (h : HaltsAt tally project compiled [] provisions failure after)
    (htallies : Tallies project compiled after assignment)
    (howners : ∀ provision ∈ provisions, ∃ owner, provision.owner = .ok owner) :
    ∃ owner kind, IsPlainKind kind ∧
      failure = .nameExhausted (providerPattern project owner kind).display ∧
      ∃ count < ((distinct (provisions : Multiset Provision)).map Provision.need).count
          (.ok owner, kind),
        NamePattern.candidateCount ≤
          (providerPattern project owner kind).nthFree compiled count := by
  obtain ⟨done, failing, rest, names, rfl, henters, hnew, hfails⟩ := h
  obtain ⟨owner, howner⟩ := howners failing (by simp)
  obtain hfailure | ⟨_, hsame, rfl, htaken⟩ := hfails
  · rw [howner] at hfailure
    cases hfailure
  obtain rfl := Except.ok.inj (howner.symm.trans hsame)
  have hplain := isPlainKind_kind failing
  refine ⟨owner, failing.kind, hplain, rfl, namesOf after owner failing.kind, ?_, ?_⟩
  · -- The failing provision is named once more than all before it.
    have hbefore : (after.map Prod.snd : Multiset Provision) = distinct (0 + done) :=
      henters.provisions_eq rfl
    rw [zero_add] at hbefore
    have hmore : distinct (failing ::ₘ done) =
        failing ::ₘ distinct (done : Multiset Provision) := by
      refine Provision.distinct_cons_of_new ?_
      rw [← hbefore]
      exact hnew
    have hall : ((done ++ failing :: rest : List Provision) : Multiset Provision) =
        failing ::ₘ done + rest := by
      rw [← Multiset.coe_add, ← Multiset.cons_coe, Multiset.add_cons, Multiset.cons_add]
    have hneed : failing.need = (.ok owner, failing.kind) := by rw [Provision.need, howner]
    have hle := Multiset.map_le_map (f := Provision.need)
      (Provision.distinct_le_add (failing ::ₘ done) rest)
    rw [namesOf_eq hbefore, hall]
    refine Nat.lt_of_lt_of_le ?_ (Multiset.count_le_of_le _ hle)
    rw [hmore, Multiset.map_cons, hneed, Multiset.count_cons_self]
    exact Nat.lt_succ_self _
  · refine Nat.le_of_not_lt fun hroom => ?_
    have hfree := NamePattern.nthFree_not_compiled compiled
      (providerPattern project owner failing.kind) (namesOf after owner failing.kind)
    have hnamed := (List.mem_append.1 (htaken _ hroom)).resolve_left hfree
    rw [← htallies.generated_eq, htallies.packed owner failing.kind hplain] at hnamed
    obtain ⟨earlier, hearlier, heq⟩ := hnamed
    rw [htallies.compiled_eq] at heq
    exact absurd ((NamePattern.nthFree_strictMono _ _).injective heq) (Nat.ne_of_lt hearlier)

end Ledger

/-! ## Assigning all providers -/

def ObjectGraph.requests (graph : ObjectGraph) (path : ClassPath) : List ProviderRequest :=
  (graph.inputModules path).map .module ++
    (graph.inputImports path).map fun entry => .imported entry.1 entry.2.1 entry.2.2

theorem Assigning.Tells.ends {α : Type} {work : Assigning α} {before : Assignment}
    {Shows : α → Assignment → Prop} {Stops : Failure → Assignment → Prop}
    (h : Assigning.Tells before Shows Stops work) :
    Assigning.Tells before (fun value after => Ends work before value after ∧ Shows value after)
      Stops work := by
  unfold Assigning.Tells at h ⊢
  rcases hwork : work.outcome before with ⟨failure | value, after⟩
  · simpa only [hwork] using h
  · exact ⟨hwork, by simpa only [hwork] using h⟩

namespace Ledger

variable {project : String} {compiled : List ClassName} {ledger : Ledger}

theorem HaltsAt.before {tally : Tally} {after : Ledger} {provisions others : List Provision}
    {failure : Failure} (h : HaltsAt tally project compiled ledger provisions failure after) :
    HaltsAt tally project compiled ledger (provisions ++ others) failure after := by
  obtain ⟨done, failing, rest, names, rfl, hfailing⟩ := h
  exact ⟨done, failing, rest ++ others, names, by simp, hfailing⟩

theorem Tallies.mapM {α : Type} (graph : ObjectGraph) (xs : List α)
    (request : α → ProviderRequest) (nameOf : α → ClassName) {before : Assignment}
    (h : Tallies project compiled ledger before)
    (hkeys : (xs.map fun x => (request x).key).Nodup)
    (hnew : ∀ x ∈ xs, before.answer? (request x).key = none) :
    Assigning.Tells before
      (fun entries after => (∃ later, Enters namesOf project compiled ledger
          (xs.flatMap fun x => (request x).provisions graph)
          (entries.flatMap fun entry => entry.2.map Provider.name) later ∧
        Tallies project compiled later after) ∧
        ∀ key ∉ xs.map fun x => (request x).key, after.answer? key = before.answer? key)
      (fun failure after => ∃ later, HaltsAt namesOf project compiled ledger
          (xs.flatMap fun x => (request x).provisions graph) failure later ∧
        Tallies project compiled later after)
      (xs.mapM fun x => do
        let providers ← (request x).run graph
        return (nameOf x, providers)) := by
  induction xs generalizing ledger before with
  | nil => exact ⟨⟨ledger, .nil ledger, h⟩, fun _ _ => rfl⟩
  | cons x xs ih =>
      obtain ⟨hfirst, hkeys⟩ := List.nodup_cons.1 hkeys
      rw [List.mapM_cons, bind_assoc]
      refine (h.run graph (request x)).bind_of_stops ?_ ?_
      · rintro failure after ⟨-, ⟨later, hhalts, hlater⟩, -⟩
        exact ⟨later, hhalts.before, hlater⟩
      · intro providers between hrun
        rw [pure_bind]
        rcases hrun with ⟨hfound, rfl⟩ | ⟨-, ⟨middle, henters, hmiddle⟩, hanswer⟩
        · rw [hnew x (List.mem_cons_self ..)] at hfound
          cases hfound
        have hkept : ∀ key, key ≠ (request x).key → between.answer? key = before.answer? key :=
          fun key hne => (hanswer key).trans (if_neg hne)
        refine (ih hmiddle hkeys fun y hy => ?_).bind_of_stops ?_ ?_
        · rw [hkept _ (ne_of_mem_of_not_mem (List.mem_map_of_mem hy) hfirst)]
          exact hnew y (List.mem_cons_of_mem _ hy)
        · rintro failure after ⟨later, hhalts, hlater⟩
          exact ⟨later, .behind henters hhalts, hlater⟩
        · rintro entries after ⟨⟨later, hrest, hlater⟩, hothers⟩
          refine .pure ⟨⟨later, henters.append hrest, hlater⟩, fun key hkey => ?_⟩
          rw [List.map_cons, List.mem_cons, not_or] at hkey
          obtain ⟨hne, hkey⟩ := hkey
          rw [hothers key hkey, hkept key hne]

theorem Enters.mem_names_iff {tally : Tally} {after : Ledger} {provisions : List Provision}
    {names : List ClassName}
    (h : Enters tally project compiled ledger provisions names after) (name : ClassName) :
    name ∈ after.map Prod.fst ↔ name ∈ ledger.map Prod.fst ∨ name ∈ names := by
  induction h with
  | nil => simp
  | known _ hentry _ ih =>
      rw [ih, List.mem_cons, or_left_comm]
      refine (or_iff_right_of_imp ?_).symm
      rintro rfl
      exact .inl (List.mem_map_of_mem hentry)
  | named _ _ _ ih => rw [ih, List.map_cons, List.mem_cons, List.mem_cons, or_assoc, or_left_comm]

theorem Enters.exists_candidate {tally : Tally} {after : Ledger} {provisions : List Provision}
    {names : List ClassName}
    (h : Enters tally project compiled ledger provisions names after) {name : ClassName}
    (hname : name ∈ after.map Prod.fst) : name ∈ ledger.map Prod.fst ∨
      ∃ owner kind index, IsPlainKind kind ∧
        name = (providerPattern project owner kind).candidate index := by
  induction h with
  | nil => exact .inl hname
  | known _ _ _ ih => exact ih hname
  | @named _ _ provision _ _ _ _ hnext _ ih =>
      rcases ih hname with hledger | hmade
      · obtain rfl | hledger := List.mem_cons.1 hledger
        · obtain ⟨owner, -, rfl⟩ := hnext
          exact .inr ⟨owner, provision.kind, _, isPlainKind_kind provision, rfl⟩
        · exact .inl hledger
      · exact .inr hmade

end Ledger

namespace Provision

variable (project : String) (compiled : List ClassName) (needs : Multiset Need)

/-- Each owner and kind has as many free numbers as it needs names. -/
def Affordable : Prop :=
  ∀ owner kind, IsPlainKind kind → ∀ count < needs.count (.ok owner, kind),
    (providerPattern project owner kind).nthFree compiled count < NamePattern.candidateCount

/-- The name has one of the first free numbers of an owner and a kind. -/
def IsNeeded (name : ClassName) : Prop :=
  ∃ owner kind, IsPlainKind kind ∧ ∃ count < needs.count (.ok owner, kind),
    name = (providerPattern project owner kind).candidate
      ((providerPattern project owner kind).nthFree compiled count)

end Provision

def ObjectGraph.needs (graph : ObjectGraph) (path : ClassPath) : Multiset Provision.Need :=
  (distinct ((graph.requests path).flatMap (ProviderRequest.provisions graph))).map Provision.need

namespace Assigning

def ofRequests (path : ClassPath) (graph : ObjectGraph) :
    Assigning (List (ClassName × List Provider) × List (ClassName × List Provider)) := do
  let moduleEntries ← (graph.inputModules path).mapM fun module => do
    let providers ← ofModule graph module
    return (module.name, providers)
  let contractEntries ← (graph.inputImports path).mapM fun (id, contract, lazy) => do
    let providers ← ofImport id contract lazy
    return (contract.name, providers)
  return (moduleEntries, contractEntries)

variable {path : ClassPath} {graph : ObjectGraph}

theorem ledger_ofRequests (hgraph : graph.WellFormed) (project : String)
    (compiled : List ClassName) :
    Tells (.ofCompiled project compiled)
      (fun entries assigned => ∃ ledger,
        Ledger.Enters Ledger.namesOf project compiled []
          ((graph.requests path).flatMap (ProviderRequest.provisions graph))
          ((entries.1 ++ entries.2).flatMap fun entry => entry.2.map Provider.name) ledger ∧
        Ledger.Tallies project compiled ledger assigned)
      (fun failure assigned => ∃ ledger,
        Ledger.HaltsAt Ledger.namesOf project compiled []
          ((graph.requests path).flatMap (ProviderRequest.provisions graph)) failure ledger ∧
        Ledger.Tallies project compiled ledger assigned)
      (ofRequests path graph) := by
  have hnone : ∀ key, (Assignment.ofCompiled project compiled).answer? key = none := by
    rintro ⟨name, _ | lazy⟩ <;> rfl
  -- No request is made twice, and none is answered before.
  have hmodules : ((graph.inputModules path).map fun module =>
      (ProviderRequest.module module).key).Nodup := by
    refine List.Nodup.of_map Prod.fst ?_
    rw [List.map_map]
    exact hgraph.nodup_inputModules
  have himports : ((graph.inputImports path).map fun entry =>
      (ProviderRequest.imported entry.1 entry.2.1 entry.2.2).key).Nodup := by
    refine List.Nodup.of_map Prod.fst ?_
    rw [List.map_map]
    exact hgraph.nodup_inputImports
  have hlisted : (graph.requests path).flatMap (ProviderRequest.provisions graph) =
      ((graph.inputModules path).flatMap fun module =>
        (ProviderRequest.module module).provisions graph) ++
      (graph.inputImports path).flatMap fun entry =>
        (ProviderRequest.imported entry.1 entry.2.1 entry.2.2).provisions graph := by
    rw [ObjectGraph.requests, List.flatMap_append, List.flatMap_map, List.flatMap_map]
  rw [hlisted]
  refine ((Ledger.tallies_ofCompiled project compiled).mapM graph _ .module Module.name
    hmodules fun module _ => hnone _).bind_of_stops ?_ ?_
  · rintro failure after ⟨ledger, hhalts, htallies⟩
    exact ⟨ledger, hhalts.before, htallies⟩
  · rintro moduleEntries between ⟨⟨ledger, henters, htallies⟩, hkept⟩
    refine (htallies.mapM graph (graph.inputImports path)
      (fun entry => .imported entry.1 entry.2.1 entry.2.2) (fun entry => entry.2.1.name) himports
      fun entry _ => ?_).bind_of_stops ?_ ?_
    · -- The keys of modules are none of those of imports.
      refine (hkept _ fun hmem => ?_).trans (hnone _)
      obtain ⟨module, -, hkey⟩ := List.mem_map.1 hmem
      cases congrArg Prod.snd hkey
    · rintro failure after ⟨later, hhalts, hlater⟩
      exact ⟨later, .behind henters hhalts, hlater⟩
    · rintro contractEntries after ⟨⟨later, hrest, hlater⟩, -⟩
      refine .pure ⟨later, ?_, hlater⟩
      rw [List.flatMap_append]
      exact henters.append hrest

theorem tells_ofRequests (hgraph : graph.WellFormed)
    (howners : ∀ provision ∈ (graph.requests path).flatMap (ProviderRequest.provisions graph),
      ∃ owner, provision.owner = .ok owner) (project : String) (compiled : List ClassName) :
    Tells (.ofCompiled project compiled)
      (fun entries assigned => Provision.Affordable project compiled (graph.needs path) ∧
        assigned.project = project ∧ assigned.names.compiled = compiled ∧
        (∀ name, name ∈ assigned.names.generated ↔
          Provision.IsNeeded project compiled (graph.needs path) name) ∧
        ∀ name, name ∈ assigned.names.generated ↔
          name ∈ (entries.1 ++ entries.2).flatMap fun entry => entry.2.map Provider.name)
      (fun failure _ => ¬ Provision.Affordable project compiled (graph.needs path) ∧
        ∃ text, failure = .nameExhausted text)
      (ofRequests path graph) := by
  refine (ledger_ofRequests hgraph project compiled).mono ?_ ?_
  · rintro entries assigned ⟨ledger, henters, htallies⟩
    have hledger : (ledger.map Prod.snd : Multiset Provision) =
        distinct (0 + (graph.requests path).flatMap (ProviderRequest.provisions graph)) :=
      henters.provisions_eq rfl
    rw [zero_add] at hledger
    have hcount := Ledger.namesOf_eq hledger
    refine ⟨fun owner kind hplain count hlt => ?_, htallies.project_eq, htallies.compiled_eq,
      fun name => ?_, fun name => ?_⟩
    · exact htallies.bounded owner kind hplain count (hcount owner kind ▸ hlt)
    · constructor
      · intro hname
        rw [htallies.generated_eq] at hname
        obtain hnone | ⟨owner, kind, index, hplain, rfl⟩ := henters.exists_candidate hname
        · cases hnone
        rw [← htallies.generated_eq, htallies.packed owner kind hplain, hcount,
          htallies.compiled_eq] at hname
        obtain ⟨count, hlt, rfl⟩ := hname
        exact ⟨owner, kind, hplain, count, hlt, rfl⟩
      · rintro ⟨owner, kind, hplain, count, hlt, rfl⟩
        rw [htallies.packed owner kind hplain, hcount, htallies.compiled_eq]
        exact ⟨count, hlt, rfl⟩
    · rw [htallies.generated_eq, henters.mem_names_iff]
      exact or_iff_right List.not_mem_nil
  · rintro failure assigned ⟨ledger, hhalts, htallies⟩
    obtain ⟨owner, kind, hplain, rfl, count, hlt, hfull⟩ := hhalts.exhausted htallies howners
    exact ⟨fun hroom => absurd (hroom owner kind hplain count hlt) (Nat.not_lt_of_le hfull), _, rfl⟩

end Assigning

end InjectionCompiler
