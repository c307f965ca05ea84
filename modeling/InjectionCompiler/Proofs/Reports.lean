import InjectionCompiler.Proofs.Journal

/-!
# What work reports

A piece of work that succeeds has a value and a list of faults, and both come from its steps.
-/

namespace InjectionCompiler

namespace Work

variable {α β : Type} {value : α} {texts : List String}

/-- The work succeeds with the value and reports the texts. -/
def Reports (work : Work α) (value : α) (texts : List String) : Prop :=
  work.result = .ok value ∧ faults work.events = texts

theorem reports_pure {result : α} :
    (pure result : Work α).Reports value texts ↔ value = result ∧ texts = [] := by
  simp only [Reports, result_pure, Except.ok.injEq, eq_comm]
  rfl

theorem reports_logged {logged : Logged α} :
    (liftM logged : Work α).Reports value texts ↔
      value = logged.value ∧ texts = logged.faults := by
  simp only [Reports, result_logged, events_logged, Except.ok.injEq, eq_comm, Logged.faults]

theorem not_reports_throw (failure : Failure) : ¬ (throw failure : Work α).Reports value texts := by
  rintro ⟨h, -⟩
  cases h

theorem reports_bind {work : Work α} {next : α → Work β} {result : β} :
    (work >>= next).Reports result texts ↔ ∃ value first rest, work.Reports value first ∧
      (next value).Reports result rest ∧ texts = first ++ rest := by
  constructor
  · rintro ⟨hresult, rfl⟩
    rw [result_bind, bind_eq_ok] at hresult
    obtain ⟨value, hvalue, hresult⟩ := hresult
    refine ⟨value, _, _, ⟨hvalue, rfl⟩, ⟨hresult, rfl⟩, ?_⟩
    rw [events_bind hvalue, faults_append]
  · rintro ⟨value, _, _, ⟨hvalue, rfl⟩, ⟨hresult, rfl⟩, rfl⟩
    refine ⟨?_, by rw [events_bind hvalue, faults_append]⟩
    rw [result_bind, hvalue]
    exact hresult

theorem reports_bind_nil {work : Work α} {next : α → Work β} {result : β} :
    (work >>= next).Reports result [] ↔
      ∃ value, work.Reports value [] ∧ (next value).Reports result [] := by
  rw [reports_bind]
  constructor
  · rintro ⟨value, first, rest, hwork, hnext, hnil⟩
    obtain ⟨rfl, rfl⟩ := List.append_eq_nil_iff.1 hnil.symm
    exact ⟨value, hwork, hnext⟩
  · rintro ⟨value, hwork, hnext⟩
    exact ⟨value, [], [], hwork, hnext, rfl⟩

theorem reports_logged_nil {logged : Logged α} :
    (liftM logged : Work α).Reports value [] ↔ value = logged.value ∧ logged.faults = [] := by
  rw [reports_logged, eq_comm (a := [])]

theorem forall₂_of_mapM_reports_nil {act : α → Work β} {xs : List α} {ys : List β}
    (h : (xs.mapM act).Reports ys []) :
    List.Forall₂ (fun x y => (act x).Reports y []) xs ys := by
  induction xs generalizing ys with
  | nil =>
      rw [List.mapM_nil] at h
      obtain ⟨rfl, -⟩ := reports_pure.1 h
      exact .nil
  | cons x xs ih =>
      simp only [List.mapM_cons, reports_bind_nil, reports_pure] at h
      obtain ⟨y, hfirst, others, hrest, rfl, -⟩ := h
      exact .cons hfirst (ih hrest)

theorem reports_of_forM_nil {act : α → Work Unit} {xs : List α} {done : PUnit}
    (h : (xs.forM act).Reports done []) : ∀ x ∈ xs, (act x).Reports () [] := by
  induction xs with
  | nil => exact fun x hx => absurd hx List.not_mem_nil
  | cons x xs ih =>
      obtain ⟨_, hfirst, hrest⟩ := reports_bind_nil.1 h
      exact List.forall_mem_cons.2 ⟨hfirst, ih hrest⟩

end Work

namespace BookWork

variable {α β : Type} {value : α} {before after : ContractBook} {texts : List String}

theorem reports_pure {result : α} :
    ((pure result : BookWork α).run before).Reports (value, after) texts ↔
      value = result ∧ after = before ∧ texts = [] := by
  rw [StateT.run_pure, Work.reports_pure, Prod.mk.injEq, and_assoc]

theorem reports_bind {work : BookWork α} {next : α → BookWork β} {result : β} :
    ((work >>= next).run before).Reports (result, after) texts ↔
      ∃ value between first rest, (work.run before).Reports (value, between) first ∧
        ((next value).run between).Reports (result, after) rest ∧ texts = first ++ rest := by
  rw [StateT.run_bind, Work.reports_bind, Prod.exists]

theorem reports_work {work : Work α} :
    ((liftM work : BookWork α).run before).Reports (value, after) texts ↔
      work.Reports value texts ∧ after = before := by
  change (work >>= fun result => pure (result, before)).Reports (value, after) texts ↔ _
  simp only [Work.reports_bind, Work.reports_pure, Prod.mk.injEq]
  constructor
  · rintro ⟨_, _, _, hwork, ⟨⟨rfl, rfl⟩, rfl⟩, rfl⟩
    exact ⟨by rwa [List.append_nil], rfl⟩
  · rintro ⟨hwork, rfl⟩
    exact ⟨value, texts, [], hwork, ⟨⟨rfl, rfl⟩, rfl⟩, (List.append_nil _).symm⟩

theorem reports_logged {logged : Logged α} :
    ((liftM logged : BookWork α).run before).Reports (value, after) texts ↔
      (value = logged.value ∧ texts = logged.faults) ∧ after = before := by
  rw [← Work.reports_logged]
  exact reports_work

theorem reports_set {book : ContractBook} {done : PUnit} :
    ((set book : BookWork PUnit).run before).Reports (done, after) texts ↔
      after = book ∧ texts = [] := by
  change (pure (PUnit.unit, book) : Work (PUnit × ContractBook)).Reports (done, after) texts ↔ _
  simp only [Work.reports_pure, Prod.mk.injEq, true_and]

end BookWork

end InjectionCompiler
