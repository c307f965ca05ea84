import InjectionCompiler.Contract.Discovery
import InjectionCompiler.Proofs.Table
import InjectionCompiler.Provider.Assignment

/-!
# Work that ends well

Proofs about work with a state and with failures take it apart step by step: `Ends work before
value after` says that the work succeeds.  Each primitive is described once, and what every step of
a list keeps is kept by the whole list.
-/

namespace InjectionCompiler

theorem mapM_liftM {m n : Type → Type} [Monad m] [Monad n] [LawfulMonad m] [LawfulMonad n]
    [MonadLiftT m n] [LawfulMonadLiftT m n] {α β : Type} (act : α → m β) (xs : List α) :
    (xs.mapM fun x => (liftM (act x) : n β)) = liftM (xs.mapM act) := by
  induction xs with
  | nil => simp
  | cons x xs ih => simp [ih]

/-! ## Faults of logged work -/

namespace Logged

variable {α β : Type}

@[simp] theorem faults_pure (value : α) : (pure value : Logged α).faults = [] := rfl

@[simp] theorem faults_bind (step : Logged α) (next : α → Logged β) :
    (step >>= next).faults = step.faults ++ (next step.value).faults := by
  simp [faults]

@[simp] theorem faults_report (message : String) : (report message).faults = [message] := rfl

@[simp] theorem faults_debug (message : String) (fields : List (String × String)) :
    (debug message fields).faults = [] := rfl

@[simp] theorem faults_info (message : String) (fields : List (String × String)) :
    (info message fields).faults = [] := rfl

theorem faults_forM (act : α → Logged Unit) (xs : List α) :
    (xs.forM act).faults = xs.flatMap fun x => (act x).faults := by
  induction xs with
  | nil => rfl
  | cons x xs ih =>
      rw [List.flatMap_cons, ← ih]
      exact faults_bind (act x) fun _ => xs.forM act

theorem value_mapM (act : α → Logged β) (xs : List α) :
    (xs.mapM act).value = xs.map fun x => (act x).value := by
  induction xs with
  | nil => rfl
  | cons x xs ih => rw [List.mapM_cons, value_bind, value_bind, ih]; rfl

theorem faults_mapM (act : α → Logged β) (xs : List α) :
    (xs.mapM act).faults = xs.flatMap fun x => (act x).faults := by
  induction xs with
  | nil => rfl
  | cons x xs ih =>
      rw [List.mapM_cons, faults_bind, faults_bind, ih, faults_pure, List.append_nil,
        List.flatMap_cons]

end Logged

/-! ## Successful ends -/

class Ending (m : Type → Type) (σ : outParam Type) [Monad m] where
  /-- From the state `before`, the work succeeds with `value` and leaves `after`. -/
  Ends {α : Type} (work : m α) (before : σ) (value : α) (after : σ) : Prop
  ends_pure {α : Type} {value result : α} {before after : σ} :
    Ends (pure value) before result after ↔ result = value ∧ after = before
  ends_bind {α β : Type} {work : m α} {next : α → m β} {before after : σ} {result : β} :
    Ends (work >>= next) before result after ↔
      ∃ value between, Ends work before value between ∧ Ends (next value) between result after

export Ending (Ends ends_pure ends_bind)

attribute [simp] ends_pure

/-! ## Properties of the state that work keeps -/

section

variable {m : Type → Type} {σ α β : Type} [Monad m] [Ending m σ] {Kept : σ → Prop}

def Keeps (Kept : σ → Prop) (work : m α) : Prop :=
  ∀ before value after, Kept before → Ends work before value after → Kept after

theorem Keeps.pure (value : α) : Keeps Kept (pure value : m α) := by
  intro before result after hkept h
  rw [(ends_pure.1 h).2]
  exact hkept

theorem Keeps.bind {work : m α} {next : α → m β} (hwork : Keeps Kept work)
    (hnext : ∀ value, Keeps Kept (next value)) : Keeps Kept (work >>= next) := by
  intro before result after hkept h
  obtain ⟨value, between, hfirst, hrest⟩ := ends_bind.1 h
  exact hnext value _ _ _ (hwork _ _ _ hkept hfirst) hrest

/-! ## Properties of results -/

def Yields (Holds : σ → α → Prop) (work : m α) : Prop :=
  ∀ before value after, Ends work before value after → Holds after value

theorem Yields.pure {Holds : σ → α → Prop} {value : α} (h : ∀ state, Holds state value) :
    Yields Holds (pure value : m α) := by
  intro before result after hends
  rw [(ends_pure.1 hends).1]
  exact h after

theorem Yields.bind {Holds : σ → β → Prop} {work : m α} {next : α → m β}
    (h : ∀ value, Yields Holds (next value)) : Yields Holds (work >>= next) := by
  intro before result after hends
  obtain ⟨value, between, -, hrest⟩ := ends_bind.1 hends
  exact h value _ _ _ hrest

/-! ## Work on lists -/

theorem ends_mapM_nil {act : α → m β} {before after : σ} {ys : List β} :
    Ends ([].mapM act) before ys after ↔ ys = [] ∧ after = before := by
  rw [List.mapM_nil, ends_pure]

variable [LawfulMonad m]

theorem ends_mapM_cons {act : α → m β} {x : α} {xs : List α} {before after : σ} {ys : List β} :
    Ends ((x :: xs).mapM act) before ys after ↔ ∃ y between rest,
      Ends (act x) before y between ∧ Ends (xs.mapM act) between rest after ∧ ys = y :: rest := by
  simp only [List.mapM_cons, ends_bind, ends_pure]
  constructor
  · rintro ⟨y, between, hfirst, rest, last, hrest, rfl, rfl⟩
    exact ⟨y, between, rest, hfirst, hrest, rfl⟩
  · rintro ⟨y, between, rest, hfirst, hrest, rfl⟩
    exact ⟨y, between, hfirst, rest, after, hrest, rfl, rfl⟩

theorem Keeps.mapM {act : α → m β} {xs : List α} (hact : ∀ x ∈ xs, Keeps Kept (act x)) :
    Keeps Kept (xs.mapM act) := by
  induction xs with
  | nil =>
      rw [List.mapM_nil]
      exact .pure _
  | cons x xs ih =>
      rw [List.mapM_cons]
      refine .bind (hact x (List.mem_cons_self ..)) fun value => ?_
      exact .bind (ih fun y hy => hact y (List.mem_cons_of_mem _ hy)) fun values => .pure _

theorem Yields.mapM {Holds : σ → β → Prop} {act : α → m β} {xs : List α}
    (hkeeps : ∀ x ∈ xs, ∀ value, Keeps (fun state => Holds state value) (act x))
    (hact : ∀ x ∈ xs, Yields Holds (act x)) :
    Yields (fun state values => ∀ value ∈ values, Holds state value) (xs.mapM act) := by
  induction xs with
  | nil =>
      rw [List.mapM_nil]
      exact .pure fun _ _ h => absurd h List.not_mem_nil
  | cons x xs ih =>
      have hrest := fun y hy => List.mem_cons_of_mem x (show y ∈ xs from hy)
      intro before values after h
      obtain ⟨first, between, others, hfirst, hothers, rfl⟩ := ends_mapM_cons.1 h
      intro value hvalue
      rcases List.mem_cons.1 hvalue with rfl | hvalue
      · have hlater := Keeps.mapM fun y hy => hkeeps y (hrest y hy) value
        exact hlater _ _ _ (hact x (List.mem_cons_self ..) _ _ _ hfirst) hothers
      · exact ih (fun y hy => hkeeps y (hrest y hy)) (fun y hy => hact y (hrest y hy)) _ _ _ hothers
          value hvalue

/-- `Kept` holds of the state all along, and `Related` of each argument and its result from then
on. -/
theorem ends_mapM (Related : σ → α → β → Prop) {act : α → m β} {Kept : σ → Prop}
    {Grows : σ → σ → Prop} (hrefl : ∀ s, Grows s s)
    (htrans : ∀ s t u, Grows s t → Grows t u → Grows s u)
    (hmono : ∀ s t a b, Grows s t → Related s a b → Related t a b) {xs : List α}
    (hact : ∀ a ∈ xs, ∀ before value after, Kept before → Ends (act a) before value after →
      Kept after ∧ Grows before after ∧ Related after a value) {before after : σ} {ys : List β}
    (hkept : Kept before) (h : Ends (xs.mapM act) before ys after) :
    Kept after ∧ Grows before after ∧ List.Forall₂ (Related after) xs ys := by
  induction xs generalizing before ys with
  | nil =>
      obtain ⟨rfl, rfl⟩ := ends_mapM_nil.1 h
      exact ⟨hkept, hrefl _, .nil⟩
  | cons x xs ih =>
      obtain ⟨value, between, values, hfirst, hrest, rfl⟩ := ends_mapM_cons.1 h
      obtain ⟨hbetween, hgrows, hrelated⟩ := hact x (List.mem_cons_self ..) _ _ _ hkept hfirst
      obtain ⟨hafter, hgrows', hrelateds⟩ :=
        ih (fun a ha => hact a (List.mem_cons_of_mem _ ha)) hbetween hrest
      exact ⟨hafter, htrans _ _ _ hgrows hgrows', .cons (hmono _ _ _ _ hgrows' hrelated) hrelateds⟩

/-- As `ends_mapM`, with notes that are taken on the way and with the place of each argument.  What
is known before an argument tells how many arguments came before it. -/
theorem ends_mapM_noting {γ : Type} {Extends : γ → γ → Prop} (hrefl : ∀ g, Extends g g)
    (htrans : ∀ f g k, Extends f g → Extends g k → Extends f k) {Kept : Nat → γ → σ → Prop}
    {Related : γ → Nat → α → β → Prop}
    (hmono : ∀ f g index a b, Extends f g → Related f index a b → Related g index a b)
    {act : α → m β} {xs : List α}
    (hact : ∀ index a, xs[index]? = some a → ∀ notes before value after, Kept index notes before →
      Ends (act a) before value after → ∃ later, Kept (index + 1) later after ∧
        Extends notes later ∧ Related later index a value)
    {notes : γ} {before after : σ} {ys : List β} (hkept : Kept 0 notes before)
    (h : Ends (xs.mapM act) before ys after) :
    ∃ later, Kept xs.length later after ∧ Extends notes later ∧
      ∀ index y, ys[index]? = some y → ∃ x, xs[index]? = some x ∧ Related later index x y := by
  induction xs generalizing Kept Related notes before ys with
  | nil =>
      obtain ⟨rfl, rfl⟩ := ends_mapM_nil.1 h
      exact ⟨notes, hkept, hrefl _, fun index y hy => by cases hy⟩
  | cons x xs ih =>
      obtain ⟨value, between, values, hfirst, hrest, rfl⟩ := ends_mapM_cons.1 h
      obtain ⟨middle, hmiddle, hextends, hrelated⟩ := hact 0 x rfl _ _ _ _ hkept hfirst
      -- The rest of the list is the same work with all places shifted by one.
      obtain ⟨later, hlater, hextends', hrelateds⟩ := @ih (fun index => Kept (index + 1))
        (fun notes index => Related notes (index + 1)) (fun f g index => hmono f g (index + 1))
        (fun index => hact (index + 1)) _ _ _ hmiddle hrest
      refine ⟨later, hlater, htrans _ _ _ hextends hextends', ?_⟩
      rintro (_ | index) y hy
      · cases hy
        exact ⟨x, rfl, hmono _ _ _ _ _ hextends' hrelated⟩
      · exact hrelateds index y hy

end

/-! ## Work that may only fail -/

instance decidableEqExcept {ε α : Type} [DecidableEq ε] [DecidableEq α] :
    DecidableEq (Except ε α)
  | .ok a, .ok b => decidable_of_iff (a = b) (by simp)
  | .error a, .error b => decidable_of_iff (a = b) (by simp)
  | .ok _, .error _ => isFalse (by simp)
  | .error _, .ok _ => isFalse (by simp)

theorem bind_eq_ok {α β : Type} {work : Except Failure α} {next : α → Except Failure β}
    {result : β} :
    work >>= next = .ok result ↔ ∃ value, work = .ok value ∧ next value = .ok result := by
  cases work <;> simp [Bind.bind, Except.bind]

theorem exists_ok_of_isOk {α : Type} {work : Except Failure α} (h : work.isOk = true) :
    ∃ value, work = .ok value := by
  cases work with
  | error failure => cases h
  | ok value => exact ⟨value, rfl⟩

theorem exists_ok_of_map_eq_ok {α β : Type} {work : Except Failure α} {change : α → β} {result : β}
    (h : work.map change = .ok result) : ∃ value, work = .ok value ∧ change value = result := by
  cases work with
  | error failure => cases h
  | ok value => exact ⟨value, rfl, Except.ok.inj h⟩

theorem forall₂_of_mapM_eq_ok {α β : Type} {act : α → Except Failure β} {xs : List α}
    {ys : List β} (h : xs.mapM act = .ok ys) : List.Forall₂ (fun x y => act x = .ok y) xs ys := by
  induction xs generalizing ys with
  | nil =>
      cases h
      exact .nil
  | cons x xs ih =>
      rw [List.mapM_cons, bind_eq_ok] at h
      obtain ⟨y, hy, h⟩ := h
      obtain ⟨rest, hrest, h⟩ := bind_eq_ok.1 h
      cases h
      exact .cons hy (ih hrest)

theorem exists_mapM_ok {α β : Type} {Related : α → β → Prop} {act : α → Except Failure β}
    {xs : List α} (h : ∀ x ∈ xs, ∃ y, act x = .ok y ∧ Related x y) :
    ∃ ys, xs.mapM act = .ok ys ∧ List.Forall₂ Related xs ys := by
  induction xs with
  | nil => exact ⟨[], rfl, .nil⟩
  | cons x xs ih =>
      obtain ⟨y, hy, hrelated⟩ := h x (List.mem_cons_self ..)
      obtain ⟨ys, hys, hrest⟩ := ih fun z hz => h z (List.mem_cons_of_mem _ hz)
      refine ⟨y :: ys, ?_, .cons hrelated hrest⟩
      rw [List.mapM_cons, hy, hys]
      rfl

theorem exists_mapM_ok_forall {α β : Type} {Holds : β → Prop} {act : α → Except Failure β}
    {xs : List α} (h : ∀ x ∈ xs, ∃ y, act x = .ok y ∧ Holds y) :
    ∃ ys, xs.mapM act = .ok ys ∧ ∀ y ∈ ys, Holds y := by
  obtain ⟨ys, hys, hholds⟩ := @exists_mapM_ok _ _ (fun _ => Holds) _ _ h
  refine ⟨ys, hys, fun y hy => ?_⟩
  obtain ⟨x, -, hy⟩ := exists_left_of_forall₂ hholds hy
  exact hy

/-! ## Work with events that may fail -/

namespace Work

variable {α β : Type}

theorem result_pure (value : α) : (pure value : Work α).result = .ok value := rfl

theorem result_logged (logged : Logged α) : (liftM logged : Work α).result = .ok logged.value := rfl

theorem result_bind (work : Work α) (next : α → Work β) :
    (work >>= next).result = work.result >>= fun value => (next value).result := by
  simp only [result, ExceptT.run_bind, Logged.value_bind]
  cases (ExceptT.run work).value <;> rfl

theorem events_logged (logged : Logged α) : (liftM logged : Work α).events = logged.events := by
  change logged.events ++ [] = logged.events
  rw [List.append_nil]

theorem events_bind {work : Work α} {next : α → Work β} {value : α} (h : work.result = .ok value) :
    (work >>= next).events = work.events ++ (next value).events := by
  change (ExceptT.run work).value = _ at h
  simp only [events, ExceptT.run_bind, Logged.events_bind, h]

theorem events_bind_of_error {work : Work α} {next : α → Work β} {failure : Failure}
    (h : work.result = .error failure) : (work >>= next).events = work.events := by
  change (ExceptT.run work).value = _ at h
  simp only [events, ExceptT.run_bind, Logged.events_bind, h]
  exact List.append_nil _

theorem logged_bind_congr {logged : Logged α} {next later : α → Work β}
    (h : next logged.value = later logged.value) :
    (liftM logged >>= next : Work β) = liftM logged >>= later := by
  change (⟨(next logged.value).result, logged.events ++ [] ++ (next logged.value).events⟩ :
    Logged _) = ⟨_, logged.events ++ [] ++ (later logged.value).events⟩
  rw [h]
  rfl

end Work

instance : Ending Work Unit where
  Ends work _ value _ := work.result = .ok value
  ends_pure := by
    intro α value result before after
    simp only [Work.result_pure, Except.ok.injEq, eq_comm, and_true]
  ends_bind := by
    intro α β work next before after result
    rw [Work.result_bind]
    cases work.result <;> simp [Bind.bind, Except.bind]

instance : Ending BookWork ContractBook where
  Ends work before value after := (work.run before).result = .ok (value, after)
  ends_pure := by
    intro α value result before after
    simp only [StateT.run_pure, Work.result_pure, Except.ok.injEq, Prod.mk.injEq, eq_comm]
  ends_bind := by
    intro α β work next before after result
    rw [StateT.run_bind, Work.result_bind]
    cases (work.run before).result with
    | error => simp [Bind.bind, Except.bind]
    | ok pair => simp [Bind.bind, Except.bind, Prod.ext_iff]

instance : Ending Assigning Assignment where
  Ends work before value after := ((ExceptT.run work).run before).value = (.ok value, after)
  ends_pure := by
    intro α value result before after
    simp only [ExceptT.run_pure, StateT.run_pure, Logged.value_pure, Prod.mk.injEq,
      Except.ok.injEq, eq_comm]
  ends_bind := by
    intro α β work next before after result
    rw [ExceptT.run_bind, StateT.run_bind, Logged.value_bind]
    rcases ((ExceptT.run work).run before).value with ⟨outcome, between⟩
    cases outcome <;> simp

/-! ## The steps of work on the book of contracts -/

section

variable {α : Type} {before after : ContractBook} {result : α}

@[simp] theorem BookWork.ends_get {book : ContractBook} :
    Ends (get : BookWork ContractBook) before book after ↔ book = before ∧ after = before := by
  change Except.ok (before, before) = Except.ok (book, after) ↔ _
  simp only [Except.ok.injEq, Prod.mk.injEq, eq_comm]

@[simp] theorem BookWork.ends_set {book : ContractBook} {done : PUnit} :
    Ends (set book : BookWork PUnit) before done after ↔ after = book := by
  change Except.ok (PUnit.unit, book) = Except.ok (done, after) ↔ _
  simp only [Except.ok.injEq, Prod.mk.injEq, true_and, eq_comm]

@[simp] theorem BookWork.ends_throw {failure : Failure} :
    ¬ Ends (throw failure : BookWork α) before result after := by
  change ¬ Except.error failure = Except.ok (result, after)
  simp

@[simp] theorem BookWork.ends_work {work : Work α} :
    Ends (liftM work : BookWork α) before result after ↔
      work.result = .ok result ∧ after = before := by
  change (work >>= fun value => pure (value, before)).result = Except.ok (result, after) ↔ _
  rw [Work.result_bind]
  cases work.result with
  | error => simp [Bind.bind, Except.bind]
  | ok value => simp [Bind.bind, Except.bind, Work.result_pure, eq_comm]

@[simp] theorem BookWork.ends_logged {logged : Logged α} :
    Ends (liftM logged : BookWork α) before result after ↔
      result = logged.value ∧ after = before := by
  change Except.ok (logged.value, before) = Except.ok (result, after) ↔ _
  simp only [Except.ok.injEq, Prod.mk.injEq, eq_comm]

theorem BookWork.keeps_logged {Kept : ContractBook → Prop} (logged : Logged α) :
    Keeps Kept (liftM logged : BookWork α) := by
  intro before value after hkept h
  rw [(BookWork.ends_logged.1 h).2]
  exact hkept

theorem BookWork.keeps_work {Kept : ContractBook → Prop} (work : Work α) :
    Keeps Kept (liftM work : BookWork α) := by
  intro before value after hkept h
  rw [(BookWork.ends_work.1 h).2]
  exact hkept

theorem BookWork.yields_logged {Holds : ContractBook → α → Prop} {logged : Logged α}
    (h : ∀ state, Holds state logged.value) : Yields Holds (liftM logged : BookWork α) := by
  intro before value after hends
  rw [(BookWork.ends_logged.1 hends).1]
  exact h after

theorem BookWork.yields_throw {Holds : ContractBook → α → Prop} (failure : Failure) :
    Yields Holds (throw failure : BookWork α) :=
  fun _ _ _ h => absurd h BookWork.ends_throw

theorem BookWork.keeps_throw {Kept : ContractBook → Prop} (failure : Failure) :
    Keeps Kept (throw failure : BookWork α) := by
  intro before value after hkept h
  exact absurd h BookWork.ends_throw

end

/-! ## The steps of assigning providers -/

section

variable {α : Type} {before after : Assignment} {result : α}

@[simp] theorem Assigning.ends_get {assignment : Assignment} :
    Ends (get : Assigning Assignment) before assignment after ↔
      assignment = before ∧ after = before := by
  change (Except.ok before, before) = (Except.ok assignment, after) ↔ _
  simp only [Except.ok.injEq, Prod.mk.injEq, eq_comm]

@[simp] theorem Assigning.ends_modify {change : Assignment → Assignment} {done : PUnit} :
    Ends (modify change : Assigning PUnit) before done after ↔ after = change before := by
  change (Except.ok PUnit.unit, change before) = (Except.ok done, after) ↔ _
  simp only [Prod.mk.injEq, true_and, eq_comm]

@[simp] theorem Assigning.ends_throw {failure : Failure} :
    ¬ Ends (throw failure : Assigning α) before result after := by
  change ¬ (Except.error failure, before) = (Except.ok result, after)
  simp

@[simp] theorem Assigning.ends_except {outcome : Except Failure α} :
    Ends (liftM outcome : Assigning α) before result after ↔
      outcome = .ok result ∧ after = before := by
  change (outcome, before) = (Except.ok result, after) ↔ _
  simp only [Prod.mk.injEq, eq_comm]

@[simp] theorem Assigning.ends_logged {logged : Logged α} :
    Ends (liftM logged : Assigning α) before result after ↔
      result = logged.value ∧ after = before := by
  change (Except.ok logged.value, before) = (Except.ok result, after) ↔ _
  simp only [Except.ok.injEq, Prod.mk.injEq, eq_comm]

end

end InjectionCompiler
