import InjectionCompiler.Proofs.Requests

/-!
# Stable names

The name of a provider depends on no other owner and no other kind, and it is answered again when it
is asked for again.  Its number counts the names that were handed out before; as long as no request
has failed, these belong to different sources.
-/

namespace InjectionCompiler

/-! ## Runs without failures -/

namespace Provision

/-- The request that names a provision which is not shared. -/
def requestKey? : Provision → Option (ClassName × Option Bool)
  | .method module _ => some (module, none)
  | .field module _ => some (module, none)
  | .getter name lazy _ => some (name, some lazy)
  | .constructor _ => none
  | .binding _ => none
  | .factory _ => none
  | .contract _ => none

def Apart (provision other : Provision) : Prop :=
  provision.IsShared ∨ provision ≠ other

theorem apart_of_isShared {provision other : Provision} (h : other.IsShared) :
    provision.Apart other := by
  by_cases hshared : provision.IsShared
  · exact .inl hshared
  · exact .inr fun heq => hshared (heq ▸ h)

end Provision

theorem pairwise_map_zipIdx {α β : Type} {Apart : β → β → Prop} {entry : α × Nat → β}
    (h : ∀ x y, x.2 < y.2 → Apart (entry x) (entry y)) (xs : List α) :
    (xs.zipIdx.map entry).Pairwise Apart := by
  have hindices : (xs.zipIdx.map Prod.snd).Pairwise (· < ·) := by
    rw [List.zipIdx_map_snd]
    exact List.pairwise_lt_range'
  rw [List.pairwise_map] at hindices ⊢
  exact hindices.imp (h _ _)

namespace ProviderRequest

variable {graph : ObjectGraph}

theorem provisions_module (graph : ObjectGraph) (asked : Module) :
    (ProviderRequest.module asked).provisions graph =
      (asked.provisionPoints.zipIdx.map fun entry => entry.1.provision asked.name entry.2) ++
        (asked.bindings.map .binding ++
          ((asked.knownFactories graph).map (fun entry => .factory entry.2.name) ++
            (asked.knownContracts graph).map fun entry => .contract entry.2.name)) := by
  simp [provisions, entries, Module.entries, Function.comp_def]

theorem provisions_imported (graph : ObjectGraph) (id : Id .contract) (contract : Contract)
    (lazy : Bool) : (ProviderRequest.imported id contract lazy).provisions graph =
      contract.getters.zipIdx.map fun (_, index) => .getter contract.name lazy index := by
  simp [provisions, entries, Contract.entries, Function.comp_def]

theorem isShared_of_mem_sharedPart {asked : Module} {provision : Provision}
    (h : provision ∈ asked.bindings.map .binding ++
      ((asked.knownFactories graph).map (fun entry => .factory entry.2.name) ++
        (asked.knownContracts graph).map fun entry => .contract entry.2.name)) :
    provision.IsShared := by
  simp only [List.mem_append, List.mem_map] at h
  rcases h with ⟨_, -, rfl⟩ | ⟨_, -, rfl⟩ | ⟨_, -, rfl⟩ <;> exact trivial

theorem apart_points (module : ClassName) {x y : ProvisionPoint × Nat} (h : x.2 < y.2) :
    (x.1.provision module x.2).Apart (y.1.provision module y.2) := by
  unfold ProvisionPoint.provision Provision.Apart
  cases x.1.origin with
  | constructor => exact .inl trivial
  | method | field =>
      cases y.1.origin with
      | constructor => exact .inr nofun
      | method | field => exact .inr (by simp; try omega)

theorem pairwise_apart (graph : ObjectGraph) (request : ProviderRequest) :
    (request.provisions graph).Pairwise Provision.Apart := by
  cases request with
  | module asked =>
      rw [provisions_module]
      refine List.pairwise_append.2
        ⟨pairwise_map_zipIdx (fun x y => apart_points asked.name) _, ?_, ?_⟩
      · refine List.pairwise_of_forall_mem_list fun _ _ other hother => ?_
        exact Provision.apart_of_isShared (isShared_of_mem_sharedPart hother)
      · intro _ _ other hother
        exact Provision.apart_of_isShared (isShared_of_mem_sharedPart hother)
  | imported id contract lazy =>
      rw [provisions_imported]
      refine pairwise_map_zipIdx (fun x y hlt => .inr fun heq => ?_) _
      exact absurd (Provision.getter.inj heq).2.2 (Nat.ne_of_lt hlt)

theorem requestKey?_of_mem {request : ProviderRequest} {provision : Provision}
    (h : provision ∈ request.provisions graph) (hshared : ¬ provision.IsShared) :
    provision.requestKey? = some request.key := by
  cases request with
  | module asked =>
      rw [provisions_module, List.mem_append] at h
      rcases h with h | h
      · obtain ⟨⟨point, index⟩, -, rfl⟩ := List.mem_map.1 h
        dsimp only [ProvisionPoint.provision] at hshared ⊢
        cases horigin : point.origin with
        | constructor => exact absurd (by rw [horigin]; trivial) hshared
        | method | field => rfl
      · exact absurd (isShared_of_mem_sharedPart h) hshared
  | imported id contract lazy =>
      rw [provisions_imported] at h
      obtain ⟨_, -, rfl⟩ := List.mem_map.1 h
      rfl

end ProviderRequest

namespace Ledger

variable {tally : Tally} {graph : ObjectGraph} {project : String} {compiled : List ClassName}
  {known : Replies} {ledger after : Ledger}

theorem Enters.mem_iff {provisions : List Provision} {names : List ClassName}
    (h : Enters tally project compiled ledger provisions names after) (provision : Provision) :
    provision ∈ after.map Prod.snd ↔ provision ∈ ledger.map Prod.snd ∨ provision ∈ provisions := by
  induction h with
  | nil => simp
  | known hshared hentry _ ih =>
      rw [ih, List.mem_cons, or_left_comm]
      refine (or_iff_right_of_imp ?_).symm
      rintro rfl
      exact .inl (List.mem_map_of_mem hentry)
  | named _ _ _ ih =>
      rw [ih, List.map_cons, List.mem_cons, List.mem_cons, or_assoc, or_left_comm]

theorem Enters.nodup {provisions : List Provision} {names : List ClassName}
    (h : Enters tally project compiled ledger provisions names after)
    (hledger : (ledger.map Prod.snd).Nodup)
    (hfresh : ∀ provision ∈ provisions, ¬ provision.IsShared → provision ∉ ledger.map Prod.snd)
    (hapart : provisions.Pairwise Provision.Apart) : (after.map Prod.snd).Nodup := by
  induction h with
  | nil => exact hledger
  | known _ _ _ ih =>
      exact ih hledger (fun other hother => hfresh other (List.mem_cons_of_mem _ hother))
        (List.pairwise_cons.1 hapart).2
  | @named ledger _ provision provisions _ _ hnew _ _ ih =>
      obtain ⟨hfirst, hrest⟩ := List.pairwise_cons.1 hapart
      have hout : provision ∉ ledger.map Prod.snd := by
        by_cases hshared : provision.IsShared
        · exact hnew hshared
        · exact hfresh provision (List.mem_cons_self ..) hshared
      refine ih (List.nodup_cons.2 ⟨hout, hledger⟩) (fun other hother hshared hmem => ?_) hrest
      rcases List.mem_cons.1 hmem with rfl | hmem
      · exact (hfirst other hother).elim hshared fun hne => hne rfl
      · exact hfresh other (List.mem_cons_of_mem _ hother) hshared hmem

def Placed (known : Replies) (ledger : Ledger) : Prop :=
  ∀ provision ∈ ledger.map Prod.snd, ¬ provision.IsShared →
    ∃ answered ∈ known, provision.requestKey? = some answered.1.key

theorem Serves.nodup {answers : List Answer}
    (h : Serves tally graph project compiled known ledger answers after)
    (hok : ∀ answer ∈ answers, answer.2.isOk) (hledger : (ledger.map Prod.snd).Nodup)
    (hplaced : Placed known ledger) : (after.map Prod.snd).Nodup := by
  induction h with
  | nil => exact hledger
  | again _ _ ih =>
      exact ih (fun answer hanswer => hok answer (List.mem_cons_of_mem _ hanswer)) hledger hplaced
  | @answered known ledger between _ request providers _ hnew henters _ ih =>
      refine ih (fun answer hanswer => hok answer (List.mem_cons_of_mem _ hanswer)) ?_ ?_
      · refine henters.nodup hledger (fun provision hmem hshared hold => ?_)
          (request.pairwise_apart graph)
        obtain ⟨answered, hanswered, hkey⟩ := hplaced provision hold hshared
        rw [ProviderRequest.requestKey?_of_mem hmem hshared, Option.some.injEq] at hkey
        exact hnew (List.mem_map.2 ⟨answered, hanswered, hkey.symm⟩)
      · intro provision hmem hshared
        rcases (henters.mem_iff provision).1 hmem with hold | hlisted
        · obtain ⟨answered, hanswered, hkey⟩ := hplaced provision hold hshared
          exact ⟨answered, List.mem_cons_of_mem _ hanswered, hkey⟩
        · exact ⟨_, List.mem_cons_self .., ProviderRequest.requestKey?_of_mem hlisted hshared⟩
  | failed _ _ _ _ => cases hok _ (List.mem_cons_self ..)

theorem provisionsOf_eq (hledger : (ledger.map Prod.snd).Nodup) :
    provisionsOf ledger = namesOf ledger := by
  funext owner kind
  rw [provisionsOf, namesOf, hledger.dedup]

theorem Enters.byProvisions {provisions : List Provision} {names : List ClassName}
    (h : Enters namesOf project compiled ledger provisions names after)
    (hafter : (after.map Prod.snd).Nodup) :
    Enters provisionsOf project compiled ledger provisions names after := by
  induction h with
  | nil => exact .nil _
  | known hshared hentry _ ih => exact .known hshared hentry (ih hafter)
  | @named ledger _ provision _ name _ hnew hnext hrest ih =>
      have hsuffix := (List.suffix_cons (name, provision) ledger).trans hrest.suffix
      refine .named hnew ?_ (ih hafter)
      rwa [IsNext, provisionsOf_eq (hafter.sublist (hsuffix.map Prod.snd).sublist)]

theorem Serves.byProvisions {answers : List Answer}
    (h : Serves namesOf graph project compiled known ledger answers after)
    (hok : ∀ answer ∈ answers, answer.2.isOk) (hafter : (after.map Prod.snd).Nodup) :
    Serves provisionsOf graph project compiled known ledger answers after := by
  induction h with
  | nil => exact .nil _ _
  | again hknown _ ih =>
      exact .again hknown (ih (fun answer hmem => hok answer (List.mem_cons_of_mem _ hmem)) hafter)
  | answered hnew henters hrest ih =>
      have hlater := ih (fun answer hmem => hok answer (List.mem_cons_of_mem _ hmem)) hafter
      exact .answered hnew (henters.byProvisions
        (hafter.sublist (hrest.suffix.map Prod.snd).sublist)) hlater
  | failed _ _ _ _ => cases hok _ (List.mem_cons_self ..)

end Ledger

/-! ## All runs -/

/-- Every run of requests is told by a ledger of the names it handed out: a new name has the number
that the names of its owner and kind before it tell, and what was answered before is answered again
for nothing.  Without a failure these names are those of different provisions. -/
theorem serves_ofCompiled (graph : ObjectGraph) (project : String) (compiled : List ClassName)
    (requests : List ProviderRequest) :
    ∃ ledger, (serve graph requests (.ofCompiled project compiled)).2.names.generated =
        ledger.map Prod.fst ∧
      Ledger.Serves Ledger.namesOf graph project compiled [] []
        (serve graph requests (.ofCompiled project compiled)).1 ledger ∧
      ((∀ answer ∈ (serve graph requests (.ofCompiled project compiled)).1, answer.2.isOk) →
        Ledger.Serves Ledger.provisionsOf graph project compiled [] []
          (serve graph requests (.ofCompiled project compiled)).1 ledger) := by
  have hnone : Ledger.Recalls (.ofCompiled project compiled) [] := by
    rintro ⟨name, _ | lazy⟩ providers <;> exact iff_of_false nofun fun ⟨_, _, hmem⟩ => nomatch hmem
  obtain ⟨ledger, hserves, htallies⟩ :=
    (Ledger.tallies_ofCompiled project compiled).serve hnone graph requests
  refine ⟨ledger, htallies.generated_eq, hserves, fun hok => hserves.byProvisions hok ?_⟩
  exact hserves.nodup hok .nil fun _ hmem => absurd hmem List.not_mem_nil

/-! ## A request that fails -/

namespace Stalled

/-- A binding to what is no class; no provider can be named after it. -/
def binding : Binding where
  implementation := ⟨.erased (.method "()V"), none⟩
  ancestor := ⟨.ofClass ⟨"a/X"⟩, none⟩

def module : Module :=
  { Module.empty ⟨"a/M"⟩ with
    provisionPoints := [⟨⟨"a/M"⟩, ⟨.ofClass ⟨"a/X"⟩, none⟩, .unscoped, .method "g" []⟩]
    bindings := [binding] }

def contract : Contract where
  name := ⟨"a/M"⟩
  implementation := contractImplementation ⟨"a/M"⟩ "main"
  key := ⟨.ofClass ⟨"a/M"⟩, none⟩
  getters := [⟨⟨"a/M"⟩, "g", ⟨⟨.ofClass ⟨"a/X"⟩, none⟩, .direct⟩⟩]

def graph : ObjectGraph :=
  { (default : ObjectGraph) with
    modules := (Arena.insert ∅ module.name module).2
    contracts := (Arena.insert ∅ contract.name contract).2 }

/-- The module is asked for twice and fails both times; then its contract is imported. -/
def requests : List ProviderRequest :=
  [.module module, .module module, .imported ⟨0⟩ contract false]

def failure : Failure :=
  .invalidType "Cannot extract an object type from ()V"

def provider : Provider :=
  ⟨⟨"a/M$MethodProvider2$main"⟩,
    .getter ⟨0⟩ false ⟨⟨"a/M"⟩, "g", ⟨⟨.ofClass ⟨"a/X"⟩, none⟩, .direct⟩⟩⟩

set_option maxRecDepth 100000 in
theorem answers_eq : (serve graph requests (.ofCompiled "main" [])).1 =
    [(.module module, .error failure), (.module module, .error failure),
      (.imported ⟨0⟩ contract false, .ok [provider])] := by
  decide +kernel

theorem eq_of_stopsAt {tally : Tally} {ledger after : Ledger}
    (h : Ledger.StopsAt tally "main" [] ledger
      ((ProviderRequest.module module).provisions graph) failure after) :
    ∃ name, after = (name, .method ⟨"a/M"⟩ 0) :: ledger := by
  have hprovisions : (ProviderRequest.module module).provisions graph =
      [.method ⟨"a/M"⟩ 0, .binding binding] := rfl
  rw [hprovisions] at h
  obtain ⟨done, failing, rest, names, heq, henters, hfails⟩ := h
  cases done with
  | nil =>
      obtain ⟨rfl, -⟩ := List.cons.inj heq
      rcases hfails with howner | ⟨_, -, hfailure, -⟩
      · cases howner
      · cases hfailure
  | cons first done =>
      obtain ⟨rfl, heq⟩ := List.cons.inj heq
      cases done with
      | cons _ done => cases done <;> cases (List.cons.inj heq).2
      | nil =>
          cases henters with
          | known hshared _ _ => exact absurd hshared id
          | named _ _ hrest =>
              cases hrest
              exact ⟨_, rfl⟩

end Stalled

set_option maxRecDepth 100000 in
/-- After a failure the names do not tell how many different sources there were: the method that is
named twice counts twice. -/
theorem not_serves_by_provisions :
    ¬ ∃ ledger, Ledger.Serves Ledger.provisionsOf Stalled.graph "main" [] [] []
      (serve Stalled.graph Stalled.requests (.ofCompiled "main" [])).1 ledger := by
  rw [Stalled.answers_eq]
  rintro ⟨ledger, hserves⟩
  cases hserves with
  | failed _ hstops hserves =>
    obtain ⟨first, rfl⟩ := Stalled.eq_of_stopsAt hstops
    cases hserves with
    | failed _ hstops hserves =>
      obtain ⟨second, rfl⟩ := Stalled.eq_of_stopsAt hstops
      cases hserves with
      | again hknown _ =>
          obtain ⟨_, -, hmem⟩ := hknown
          cases hmem
      | answered _ henters _ =>
          have hprovisions : (ProviderRequest.imported ⟨0⟩ Stalled.contract false).provisions
              Stalled.graph = [.getter ⟨"a/M"⟩ false 0] := rfl
          rw [hprovisions] at henters
          cases henters with
          | known hshared _ _ => exact absurd hshared id
          | named _ hnext _ =>
              obtain ⟨owner, howner, hname⟩ := hnext
              cases howner
              have hcount : Ledger.provisionsOf
                  [(second, .method ⟨"a/M"⟩ 0), (first, .method ⟨"a/M"⟩ 0)] ⟨"a/M"⟩
                  "MethodProvider" = 1 :=
                (by decide : [Provision.method ⟨"a/M"⟩ 0, .method ⟨"a/M"⟩ 0].dedup.countP
                  (fun provision => provision.IsOf ⟨"a/M"⟩ "MethodProvider") = 1)
              have hfirst :=
                NamePattern.nthFree_nil (providerPattern "main" ⟨"a/M"⟩ "MethodProvider") 1
              rw [Provision.kind, hcount, hfirst] at hname
              exact absurd hname (by decide)

end InjectionCompiler
