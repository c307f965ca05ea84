import InjectionCompiler.Proofs.Accounting

/-!
# Missing classes

Work on a class path can fail at a class that is not on it, and where this is so of each step it is
so of the whole.  Reading a factory fails at nothing else.
-/

namespace InjectionCompiler

class Failing (m : Type → Type) [Monad m] where
  /-- From some state the work fails. -/
  Fails {α : Type} (work : m α) (failure : Failure) : Prop
  not_fails_pure {α : Type} {value : α} {failure : Failure} : ¬ Fails (pure value) failure
  fails_bind {α β : Type} {work : m α} {next : α → m β} {failure : Failure} :
    Fails (work >>= next) failure → Fails work failure ∨ ∃ value, Fails (next value) failure

instance : Failing Work where
  Fails work failure := work.result = .error failure
  not_fails_pure := by
    intro α value failure h
    cases h
  fails_bind := by
    intro α β work next failure h
    rw [Work.result_bind] at h
    cases hwork : work.result with
    | error other =>
        rw [hwork] at h
        cases h
        exact .inl rfl
    | ok value =>
        rw [hwork] at h
        exact .inr ⟨value, h⟩

instance : Failing BookWork where
  Fails work failure := ∃ book, (work.run book).result = .error failure
  not_fails_pure := by
    rintro α value failure ⟨book, h⟩
    cases h
  fails_bind := by
    rintro α β work next failure ⟨book, h⟩
    rw [StateT.run_bind, Work.result_bind] at h
    cases hwork : (work.run book).result with
    | error other =>
        rw [hwork] at h
        cases h
        exact .inl ⟨book, hwork⟩
    | ok done =>
        rw [hwork] at h
        exact .inr ⟨done.1, done.2, h⟩

namespace ClassPath

/-- The work fails at nothing but classes that are not on the path. -/
def Misses (path : ClassPath) {m : Type → Type} [Monad m] [Failing m] {α : Type} (work : m α) :
    Prop :=
  ∀ failure, Failing.Fails work failure →
    ∃ name, path.find? name = none ∧ failure = .classNotFound name

variable {path : ClassPath}

namespace Misses

section

variable {m : Type → Type} [Monad m] [Failing m] {α β : Type}

theorem pure (value : α) : path.Misses (pure value : m α) :=
  fun _ h => absurd h Failing.not_fails_pure

theorem bind {work : m α} {next : α → m β} (hwork : path.Misses work)
    (hnext : ∀ value, path.Misses (next value)) : path.Misses (work >>= next) := by
  intro failure h
  rcases Failing.fails_bind h with hfails | ⟨value, hfails⟩
  · exact hwork failure hfails
  · exact hnext value failure hfails

theorem mapM [LawfulMonad m] {act : α → m β} {xs : List α}
    (hact : ∀ x ∈ xs, path.Misses (act x)) : path.Misses (xs.mapM act) := by
  induction xs with
  | nil =>
      rw [List.mapM_nil]
      exact .pure _
  | cons x xs ih =>
      rw [List.mapM_cons]
      refine (hact x (List.mem_cons_self ..)).bind fun _ => ?_
      exact (ih fun y hy => hact y (List.mem_cons_of_mem _ hy)).bind fun _ => .pure _

end

variable {α : Type}

theorem logged (logged : Logged α) : path.Misses (liftM logged : Work α) := by
  intro failure h
  cases h

theorem notFound {name : ClassName} (h : ∀ decl, path.find? name ≠ some decl) :
    path.Misses (throw (.classNotFound name) : Work α) := by
  intro failure hfails
  cases hfails
  exact ⟨name, Option.eq_none_iff_forall_ne_some.2 h, rfl⟩

theorem forM {act : α → Work Unit} {xs : List α} (hact : ∀ x ∈ xs, path.Misses (act x)) :
    path.Misses (xs.forM act) := by
  induction xs with
  | nil => exact .pure _
  | cons x xs ih =>
      refine (hact x (List.mem_cons_self ..)).bind fun _ => ?_
      exact ih fun y hy => hact y (List.mem_cons_of_mem _ hy)

theorem bookNotFound {name : ClassName} (h : ∀ decl, path.find? name ≠ some decl) :
    path.Misses (throw (.classNotFound name) : BookWork α) := by
  rintro failure ⟨book, hfails⟩
  cases hfails
  exact ⟨name, Option.eq_none_iff_forall_ne_some.2 h, rfl⟩

theorem work {work : Work α} (h : path.Misses work) : path.Misses (liftM work : BookWork α) := by
  rintro failure ⟨book, hfails⟩
  change (work >>= fun value => Pure.pure (value, book)).result = .error failure at hfails
  rcases Failing.fails_bind (m := Work) hfails with hwork | ⟨value, hpure⟩
  · exact h failure hwork
  · cases hpure

theorem bookLogged (logged : Logged α) : path.Misses (liftM logged : BookWork α) := by
  rintro failure ⟨book, hfails⟩
  cases hfails

theorem get : path.Misses (get : BookWork ContractBook) := by
  rintro failure ⟨book, hfails⟩
  cases hfails

theorem set (book : ContractBook) : path.Misses (set book : BookWork PUnit) := by
  rintro failure ⟨before, hfails⟩
  cases hfails

theorem seeks {work : Work α} (h : path.Misses work) : work.Seeks :=
  fun failure hfails => (h failure hfails).imp fun _ hname => hname.2

end Misses

/-! ## Factories -/

theorem misses_readFactoryMethod (factory : ClassDecl) (owner : ClassName) (method : MethodDecl) :
    path.Misses (path.readFactoryMethod factory owner method) := by
  unfold readFactoryMethod
  dsimp only
  split
  · exact .bind (.logged _) fun _ => .pure _
  · refine .bind (.logged _) fun implementation => ?_
    split
    · split
      · refine .bind (.logged _) fun constructor => ?_
        split
        · refine .bind (.logged _) fun offered => .bind (.forM fun _ _ => .logged _) fun _ => ?_
          refine .bind (.logged _) fun needed => ?_
          refine .bind (.mapM fun _ _ => .logged _) fun arguments => ?_
          exact .bind (.logged _) fun _ => .pure _
        · exact .pure _
      · next hunknown => exact .notFound hunknown
    · exact .pure _

theorem misses_readFactory (decl : ClassDecl) : path.Misses (path.readFactory decl) := by
  unfold readFactory
  refine .bind (.logged _) fun _ => .bind (.logged _) fun _ => ?_
  exact .bind (.mapM fun method _ => misses_readFactoryMethod decl _ _) fun _ => .pure _

end ClassPath

end InjectionCompiler
