import InjectionCompiler.Proofs.Numbering

/-!
# Providing in general

Constructors, methods, fields, bindings, factories, contracts and getters get their providers in one
way: what is remembered is answered, and anything else takes the next name of its owner and kind.
Lists of them are worked through in order, up to the first that fails.
-/

namespace InjectionCompiler

/-! ## Outcomes -/

namespace Assigning

variable {α β : Type}

/-- How the work ends, and what it leaves behind even where it fails. -/
def outcome (work : Assigning α) (before : Assignment) : Except Failure α × Assignment :=
  ((ExceptT.run work).run before).value

theorem outcome_bind (work : Assigning α) (next : α → Assigning β) (before : Assignment) :
    (work >>= next).outcome before =
      match work.outcome before with
      | (.ok value, between) => (next value).outcome between
      | (.error failure, between) => (.error failure, between) := by
  rw [outcome, ExceptT.run_bind, StateT.run_bind, Logged.value_bind, outcome]
  rcases ((ExceptT.run work).run before).value with ⟨_ | _, _⟩ <;> rfl

theorem outcome_get (before : Assignment) :
    (get : Assigning Assignment).outcome before = (.ok before, before) := rfl

theorem outcome_modify (change : Assignment → Assignment) (before : Assignment) :
    (modify change : Assigning PUnit).outcome before = (.ok .unit, change before) := rfl

theorem outcome_except (result : Except Failure α) (before : Assignment) :
    (liftM result : Assigning α).outcome before = (result, before) := rfl

theorem outcome_logged (logged : Logged α) (before : Assignment) :
    (liftM logged : Assigning α).outcome before = (.ok logged.value, before) := rfl

/-- From `before`, the work succeeds as `Shows` tells or fails as `Stops` tells. -/
def Tells (before : Assignment) (Shows : α → Assignment → Prop)
    (Stops : Failure → Assignment → Prop) (work : Assigning α) : Prop :=
  match work.outcome before with
  | (.ok value, after) => Shows value after
  | (.error failure, after) => Stops failure after

namespace Tells

variable {before : Assignment} {Shows Wanted : α → Assignment → Prop}
  {Stops Halts : Failure → Assignment → Prop} {work : Assigning α}

theorem mono (h : Tells before Shows Stops work)
    (hshows : ∀ value after, Shows value after → Wanted value after)
    (hstops : ∀ failure after, Stops failure after → Halts failure after) :
    Tells before Wanted Halts work := by
  unfold Tells at h ⊢
  split at h
  · exact hshows _ _ h
  · exact hstops _ _ h

theorem pure {value : α} (h : Shows value before) :
    Tells before Shows Stops (pure value : Assigning α) := h

theorem bind {next : α → Assigning β} {Result : β → Assignment → Prop}
    (h : Tells before Shows Stops work)
    (hnext : ∀ value between, Shows value between → Tells between Result Stops (next value)) :
    Tells before Result Stops (work >>= next) := by
  unfold Tells at h ⊢
  rw [outcome_bind]
  rcases hwork : work.outcome before with ⟨failure | value, between⟩
  · simpa only [hwork] using h
  · exact hnext value between (by simpa only [hwork] using h)

theorem bind_of_stops {next : α → Assigning β} {Result : β → Assignment → Prop}
    (h : Tells before Shows Stops work)
    (hstops : ∀ failure after, Stops failure after → Halts failure after)
    (hnext : ∀ value between, Shows value between → Tells between Result Halts (next value)) :
    Tells before Result Halts (work >>= next) :=
  (h.mono (fun _ _ => id) hstops).bind hnext

theorem bind_get {next : Assignment → Assigning α} (h : Tells before Shows Stops (next before)) :
    Tells before Shows Stops (get >>= next) := by
  unfold Tells at h ⊢
  rw [outcome_bind, outcome_get]
  exact h

theorem bind_logged {logged : Logged β} {next : β → Assigning α}
    (h : Tells before Shows Stops (next logged.value)) :
    Tells before Shows Stops (liftM logged >>= next) := by
  unfold Tells at h ⊢
  rw [outcome_bind, outcome_logged]
  exact h

end Tells

end Assigning

namespace ProvisionPoint

/-- What the point at a place of a module provides. -/
def provision (module : ClassName) (index : Nat) (point : ProvisionPoint) : Provision :=
  match point.origin with
  | .constructor _ => .constructor point.owner
  | .method _ _ => .method module index
  | .field _ => .field module index

end ProvisionPoint

namespace Assigning

def provide (provision : Provision) (medium : Medium) : Assigning Provider := do
  match (← get).shared? provision with
  | some provider => return provider
  | none =>
      let owner ← provision.owner
      let provider ← newProvider owner provision.kind medium
      modify fun assignment => assignment.remember provider provision
      return provider

theorem provide_of_not_shared {provision : Provision} {owner : ClassName}
    (howner : provision.owner = .ok owner) (hshared : ¬ provision.IsShared) (medium : Medium) :
    provide provision medium = newProvider owner provision.kind medium := by
  cases provision with
  | constructor | binding | factory | contract => exact absurd trivial hshared
  | method | field | getter =>
      cases howner
      exact bind_pure (newProvider _ _ medium)

theorem ofPoint_eq (module : ClassName) (index : Nat) (point : ProvisionPoint) :
    ofPoint module point = provide (point.provision module index) (.provisionPoint point) := by
  unfold ofPoint provide ProvisionPoint.provision
  cases point.origin with
  | constructor injectees => rfl
  | method name injectees =>
      exact (@provide_of_not_shared (.method module index) module rfl id _).symm
  | field name => exact (@provide_of_not_shared (.field module index) module rfl id _).symm

end Assigning

/-! ## Lists of provisions -/

/-- What a module lists providers for, in order, each with its source. -/
def Module.entries (graph : ObjectGraph) (module : Module) : List (Provision × Medium) :=
  (module.provisionPoints.zipIdx.map fun (point, index) =>
      (point.provision module.name index, .provisionPoint point)) ++
    (module.bindings.map fun bound => (.binding bound, .binding bound)) ++
    ((module.knownFactories graph).map fun (id, factory) => (.factory factory.name, .factory id)) ++
    (module.knownContracts graph).map fun (id, contract) => (.contract contract.name, .contract id)

/-- What an imported contract lists providers for. -/
def Contract.entries (id : Id .contract) (lazy : Bool) (contract : Contract) :
    List (Provision × Medium) :=
  contract.getters.zipIdx.map fun (served, index) =>
    (.getter contract.name lazy index, .getter id lazy served)

namespace Assigning

def provideAll (entries : List (Provision × Medium)) : Assigning (List Provider) :=
  entries.mapM fun (provision, medium) => provide provision medium

theorem mapM_zipIdx {m : Type → Type} [Monad m] [LawfulMonad m] {α β γ : Type} {act : α → m γ}
    {entry : α × Nat → β} {each : β → m γ} (h : ∀ x index, act x = each (entry (x, index)))
    (xs : List α) : xs.mapM act = (xs.zipIdx.map entry).mapM each := by
  have hfst : xs.mapM act = (xs.zipIdx.map Prod.fst).mapM act := by
    rw [List.zipIdx_map_fst]
  rw [hfst, List.mapM_map, List.mapM_map]
  exact congrArg (List.mapM · xs.zipIdx) (funext fun (x, index) => h x index)

theorem ofModule_eq (graph : ObjectGraph) (module : Module) :
    ofModule graph module = (do
      match (← get).modules.find? module.name with
      | some providers => return providers
      | none =>
          let providers ← provideAll (module.entries graph)
          Logged.debug ("Created " ++ toString providers.length ++ " providers for module " ++
            module.name.display) []
          modify fun assignment =>
            { assignment with modules := assignment.modules.insert module.name providers }
          return providers) := by
  have hpoints : module.provisionPoints.mapM (ofPoint module.name) =
      provideAll (module.provisionPoints.zipIdx.map fun (point, index) =>
        (point.provision module.name index, .provisionPoint point)) :=
    mapM_zipIdx (fun point index => ofPoint_eq module.name index point) _
  unfold ofModule Module.entries
  simp only [provideAll, List.mapM_append, bind_assoc, pure_bind, hpoints, List.mapM_map]
  rfl

theorem ofImport_eq (id : Id .contract) (contract : Contract) (lazy : Bool) :
    ofImport id contract lazy = (do
      match (← get).getters.find? (contract.name, lazy) with
      | some providers => return providers
      | none =>
          let providers ← provideAll (contract.entries id lazy)
          modify fun assignment =>
            { assignment with
              getters := assignment.getters.insert (contract.name, lazy) providers }
          return providers) := by
  have hgetters : (contract.getters.mapM fun served =>
      newProvider contract.name "MethodProvider" (.getter id lazy served)) =
      provideAll (contract.entries id lazy) :=
    mapM_zipIdx (fun served index => (@provide_of_not_shared (.getter contract.name lazy index)
      contract.name rfl not_false _).symm) _
  unfold ofImport
  exact hgetters ▸ rfl

end Assigning

/-- The list that is remembered for a module, or for a contract by the way it is imported. -/
def Assignment.answer? (assignment : Assignment) :
    ClassName × Option Bool → Option (List Provider)
  | (name, none) => assignment.modules.find? name
  | (name, some lazy) => assignment.getters.find? (name, lazy)

/-- Remembers a list where `Assignment.answer?` finds it. -/
def Assignment.setAnswer (assignment : Assignment) (providers : List Provider) :
    ClassName × Option Bool → Assignment
  | (name, none) => { assignment with modules := assignment.modules.insert name providers }
  | (name, some lazy) =>
      { assignment with getters := assignment.getters.insert (name, lazy) providers }

theorem Assignment.answer?_setAnswer (assignment : Assignment) (providers : List Provider)
    (key other : ClassName × Option Bool) :
    (assignment.setAnswer providers key).answer? other =
      if other = key then some providers else assignment.answer? other := by
  rcases key with ⟨name, _ | lazy⟩ <;> rcases other with ⟨asked, _ | mode⟩ <;>
    simp [setAnswer, answer?, Table.find?_insert]

theorem Assignment.project_setAnswer (assignment : Assignment) (providers : List Provider)
    (key : ClassName × Option Bool) :
    (assignment.setAnswer providers key).project = assignment.project := by
  rcases key with ⟨name, _ | lazy⟩ <;> rfl

theorem Assignment.names_setAnswer (assignment : Assignment) (providers : List Provider)
    (key : ClassName × Option Bool) :
    (assignment.setAnswer providers key).names = assignment.names := by
  rcases key with ⟨name, _ | lazy⟩ <;> rfl

theorem Assignment.shared?_setAnswer (assignment : Assignment) (providers : List Provider)
    (key : ClassName × Option Bool) (provision : Provision) :
    (assignment.setAnswer providers key).shared? provision = assignment.shared? provision := by
  rcases key with ⟨name, _ | lazy⟩ <;> cases provision <;> rfl

theorem Assignment.answer?_remember (assignment : Assignment) (provider : Provider)
    (provision : Provision) :
    (assignment.remember provider provision).answer? = assignment.answer? := by
  funext ⟨name, lazy⟩
  cases lazy with
  | none => exact congrArg (Table.find? · name) modules_remember
  | some lazy => exact congrArg (Table.find? · (name, lazy)) getters_remember

end InjectionCompiler
