import InjectionCompiler.Proofs.Range
import Mathlib.Algebra.BigOperators.Group.List.Basic
import Mathlib.Algebra.GroupWithZero.Nat
import Mathlib.Data.Set.Insert

/-!
# What reading takes

Reading a class path asks for contracts, reports faults, and stops at a class that is not known.
The toll of a piece of work says so before it is run.  Tolls add up, and in any order to the same,
so that the toll of a whole class path does not depend on the order of its classes.

A contract that is asked for twice is read once.  The faults of contracts are therefore put down to
the book, and the toll of the work has only those that are reported each time.
-/

namespace InjectionCompiler

/-! ## Tolls -/

structure Toll where
  /-- Every class that the work looks up is known. -/
  fine : Prop
  /-- The number of faults that are reported each time. -/
  faults : Nat
  asked : Set ClassName

namespace Toll

theorem ext {a b : Toll} (fine : a.fine ↔ b.fine) (faults : a.faults = b.faults)
    (asked : a.asked = b.asked) : a = b := by
  cases a
  cases b
  simp_all

instance : Zero Toll := ⟨⟨True, 0, ∅⟩⟩

instance : Add Toll := ⟨fun a b => ⟨a.fine ∧ b.fine, a.faults + b.faults, a.asked ∪ b.asked⟩⟩

@[simp] theorem fine_zero : (0 : Toll).fine ↔ True := .rfl

@[simp] theorem faults_zero : (0 : Toll).faults = 0 := rfl

@[simp] theorem asked_zero : (0 : Toll).asked = ∅ := rfl

@[simp] theorem fine_add (a b : Toll) : (a + b).fine ↔ a.fine ∧ b.fine := .rfl

@[simp] theorem faults_add (a b : Toll) : (a + b).faults = a.faults + b.faults := rfl

@[simp] theorem asked_add (a b : Toll) : (a + b).asked = a.asked ∪ b.asked := rfl

instance : AddCommMonoid Toll where
  add_assoc a b c := ext and_assoc (Nat.add_assoc ..) (Set.union_assoc ..)
  zero_add a := ext (iff_of_eq (true_and _)) (Nat.zero_add _) (Set.empty_union _)
  add_zero a := ext (iff_of_eq (and_true _)) (Nat.add_zero _) (Set.union_empty _)
  add_comm a b := ext and_comm (Nat.add_comm ..) (Set.union_comm ..)
  nsmul := nsmulRec

def reporting (count : Nat) : Toll := ⟨True, count, ∅⟩

@[simp] theorem fine_reporting (count : Nat) : (reporting count).fine ↔ True := .rfl

@[simp] theorem faults_reporting (count : Nat) : (reporting count).faults = count := rfl

@[simp] theorem asked_reporting (count : Nat) : (reporting count).asked = ∅ := rfl

theorem mem_asked_sum {tolls : List Toll} {name : ClassName} :
    name ∈ tolls.sum.asked ↔ ∃ toll ∈ tolls, name ∈ toll.asked := by
  induction tolls with
  | nil => simp
  | cons toll tolls ih => simp [ih]

theorem faults_eq_zero_of_sum {tolls : List Toll} (h : tolls.sum.faults = 0) {toll : Toll}
    (htoll : toll ∈ tolls) : toll.faults = 0 := by
  induction tolls with
  | nil => cases htoll
  | cons other tolls ih =>
      rw [List.sum_cons, faults_add, Nat.add_eq_zero_iff] at h
      rcases List.mem_cons.1 htoll with rfl | hrest
      · exact h.1
      · exact ih h.2 hrest

theorem asked_sum_eq_empty {tolls : List Toll} (h : ∀ toll ∈ tolls, toll.asked = ∅) :
    tolls.sum.asked = ∅ := by
  refine Set.eq_empty_iff_forall_notMem.2 fun name hname => ?_
  obtain ⟨toll, htoll, hasked⟩ := mem_asked_sum.1 hname
  rw [h toll htoll] at hasked
  exact hasked

end Toll

/-! ## The end of a piece of work -/

namespace Work

variable {α β : Type}

def faultCount (work : Work α) : Nat :=
  (faults work.events).length

/-- `Holds` tells of the value and the number of faults, where the work succeeds.  A strict account
also tells that it succeeds just where `fine` holds, and otherwise stops at an unknown class. -/
def Settles (strict fine : Prop) (Holds : α → Nat → Prop) (work : Work α) : Prop :=
  match work.result with
  | .ok value => Holds value work.faultCount ∧ (strict → fine)
  | .error failure => strict → ¬ fine ∧ ∃ name, failure = .classNotFound name

namespace Settles

variable {strict fine later : Prop} {Holds Wanted : α → Nat → Prop} {work : Work α}

theorem of_ok {value : α} (h : work.Settles strict fine Holds) (hvalue : work.result = .ok value) :
    Holds value work.faultCount ∧ (strict → fine) := by
  simpa only [Settles, hvalue] using h

theorem of_error {failure : Failure} (h : work.Settles strict fine Holds)
    (hfailure : work.result = .error failure) :
    strict → ¬ fine ∧ ∃ name, failure = .classNotFound name := by
  simpa only [Settles, hfailure] using h

theorem of_success (h : ∀ value, work.result = .ok value → Holds value work.faultCount) :
    work.Settles False fine Holds := by
  cases hresult : work.result with
  | ok value =>
      simp only [Settles, hresult]
      exact ⟨h value hresult, False.elim⟩
  | error failure =>
      simp only [Settles, hresult]
      exact False.elim

theorem mono (h : work.Settles strict fine Holds)
    (hwanted : ∀ value count, Holds value count → Wanted value count) :
    work.Settles strict fine Wanted := by
  cases hresult : work.result with
  | ok value =>
      simp only [Settles, hresult]
      exact (h.of_ok hresult).imp (hwanted _ _) id
  | error failure =>
      simp only [Settles, hresult]
      exact h.of_error hresult

theorem pure {value : α} (h : Holds value 0) : (pure value : Work α).Settles strict True Holds :=
  ⟨h, fun _ => trivial⟩

theorem logged {logged : Logged α} (h : Holds logged.value logged.faults.length) :
    (liftM logged : Work α).Settles strict True Holds := by
  refine ⟨?_, fun _ => trivial⟩
  rw [faultCount, events_logged]
  exact h

theorem throw (name : ClassName) :
    (throw (.classNotFound name) : Work α).Settles strict False Holds :=
  fun _ => ⟨id, name, rfl⟩

theorem bind {next : α → Work β} {Result : β → Nat → Prop} (h : work.Settles strict fine Holds)
    (hnext : ∀ value count, work.result = .ok value → Holds value count →
      (next value).Settles strict later fun result more => Result result (count + more)) :
    (work >>= next).Settles strict (fine ∧ later) Result := by
  cases hresult : work.result with
  | error failure =>
      have hbind : (work >>= next).result = .error failure := by rw [result_bind, hresult]; rfl
      simp only [Settles, hbind]
      exact fun hstrict => (h.of_error hresult hstrict).imp (fun hfine hboth => hfine hboth.1) id
  | ok value =>
      obtain ⟨hholds, hfine⟩ := h.of_ok hresult
      have hbind : (work >>= next).result = (next value).result := by rw [result_bind, hresult]; rfl
      have hcount : (work >>= next).faultCount = work.faultCount + (next value).faultCount := by
        simp only [faultCount, events_bind hresult, faults_append, List.length_append]
      cases hrest : (next value).result with
      | error failure =>
          simp only [Settles, hbind, hrest]
          have hfails := (hnext value _ hresult hholds).of_error hrest
          exact fun hstrict => (hfails hstrict).imp (fun hlater hboth => hlater hboth.2) id
      | ok result =>
          simp only [Settles, hbind, hrest, hcount]
          obtain ⟨hwanted, hlater⟩ := (hnext value _ hresult hholds).of_ok hrest
          exact ⟨hwanted, fun hstrict => ⟨hfine hstrict, hlater hstrict⟩⟩

end Settles

def toll (work : Work α) : Toll :=
  ⟨work.result.isOk, work.faultCount, ∅⟩

/-- The work stops at nothing but unknown classes. -/
def Seeks (work : Work α) : Prop :=
  ∀ failure, work.result = .error failure → ∃ name, failure = .classNotFound name

/-- The work reports exactly the faults of the toll, and succeeds just where it is fine. -/
def Pays (toll : Toll) (Shows : α → Prop) (work : Work α) : Prop :=
  ∀ strict, work.Settles strict toll.fine fun value count => Shows value ∧ count = toll.faults

namespace Pays

variable {toll later : Toll} {Shows : α → Prop} {work : Work α}

theorem pure {value : α} (h : Shows value) : (pure value : Work α).Pays 0 Shows :=
  fun _ => .pure ⟨h, rfl⟩

theorem logged {logged : Logged α} (h : Shows logged.value) :
    (liftM logged : Work α).Pays (.reporting logged.faults.length) Shows :=
  fun _ => .logged ⟨h, rfl⟩

theorem bind {next : α → Work β} {Result : β → Prop} (h : work.Pays toll Shows)
    (hnext : ∀ value, Shows value → (next value).Pays later Result) :
    (work >>= next).Pays (toll + later) Result := by
  refine fun strict => (h strict).bind fun value count _ hholds => ?_
  obtain ⟨hshows, rfl⟩ := hholds
  refine (hnext value hshows strict).mono fun result more hrest => ?_
  exact ⟨hrest.1, by rw [hrest.2, Toll.faults_add]⟩

theorem bindLogged {logged : Logged α} {count : Nat} {next : α → Work β} {Result : β → Prop}
    (hcount : logged.faults.length = count) (h : (next logged.value).Pays toll Result) :
    (liftM logged >>= next).Pays (.reporting count + toll) Result := by
  have hlogged : (liftM logged : Work α).Pays (.reporting count) (· = logged.value) :=
    hcount ▸ .logged rfl
  exact hlogged.bind fun value hvalue => hvalue ▸ h

theorem of_seeks (h : work.Seeks) : work.Pays work.toll (work.result = .ok ·) := by
  intro strict
  cases hresult : work.result with
  | ok value =>
      simp only [Settles, hresult]
      exact ⟨⟨trivial, rfl⟩, fun _ => by simp [Work.toll, hresult, Except.isOk, Except.toBool]⟩
  | error failure =>
      simp only [Settles, hresult]
      exact fun _ => ⟨by simp [Work.toll, hresult, Except.isOk, Except.toBool], h failure hresult⟩

theorem throw (name : ClassName) (faults : Nat) (asked : Set ClassName) :
    (throw (.classNotFound name) : Work α).Pays ⟨False, faults, asked⟩ Shows :=
  fun _ => .throw name

theorem mapM {act : α → Work β} {toll : α → Toll} {Related : α → β → Prop} {xs : List α}
    (hact : ∀ x ∈ xs, (act x).Pays (toll x) (Related x)) :
    (xs.mapM act).Pays (xs.map toll).sum (List.Forall₂ Related xs) := by
  induction xs with
  | nil =>
      rw [List.mapM_nil]
      exact .pure .nil
  | cons x xs ih =>
      rw [List.mapM_cons, List.map_cons, List.sum_cons]
      refine (hact x (List.mem_cons_self ..)).bind fun y hy => ?_
      rw [← add_zero (xs.map toll).sum]
      refine (ih fun z hz => hact z (List.mem_cons_of_mem _ hz)).bind fun ys hys => ?_
      exact .pure (.cons hy hys)

theorem mapM_eq {act : α → Work β} {toll : α → Toll} {value : α → β} {xs : List α}
    (hact : ∀ x ∈ xs, (act x).Pays (toll x) (· = value x)) :
    (xs.mapM act).Pays (xs.map toll).sum (· = xs.map value) := by
  exact fun strict => (Pays.mapM hact strict).mono fun ys count hholds =>
    ⟨eq_map_of_forall₂ hholds.1, hholds.2⟩

end Pays

end Work

/-! ## Work on the book of contracts -/

/-- How a book of contracts is kept. -/
structure Bookkeeping where
  Sound : ContractBook → Prop
  /-- A contract that can be read, with all that it refers to. -/
  Readable : ClassName → Prop
  spent : ContractBook → Nat
  /-- Whether `Readable` and `spent` are exact. -/
  strict : Prop
  sound_empty : Sound ∅
  named_of_sound : ∀ book, Sound book → book.Named

def ContractBook.Extends (before after : ContractBook) : Prop :=
  before.contracts.table.entries <+: after.contracts.table.entries

namespace Bookkeeping

variable {keeping : Bookkeeping} {α β : Type}

/-- What a piece of work with the given toll does to the book. -/
structure Advances (keeping : Bookkeeping) (toll : Toll) (before after : ContractBook)
    (count : Nat) : Prop where
  sound : keeping.Sound after
  extended : before.Extends after
  mem_names_iff : ∀ name,
    name ∈ after.contracts.names ↔ name ∈ before.contracts.names ∨ name ∈ toll.asked
  faults_le : toll.faults ≤ count
  count_eq : keeping.strict → count + keeping.spent before = toll.faults + keeping.spent after

/-- What work has to do to the book and shows of its value, started with `before`. -/
def Accounts (keeping : Bookkeeping) (before : ContractBook) (toll : Toll)
    (Shows : ContractBook → α → Prop) (work : BookWork α) : Prop :=
  (work.run before).Settles keeping.strict toll.fine fun ended count =>
    keeping.Advances toll before ended.2 count ∧ Shows ended.2 ended.1

theorem Advances.refl {book : ContractBook} {toll : Toll} (h : keeping.Sound book)
    (hasked : toll.asked = ∅) : keeping.Advances toll book book toll.faults where
  sound := h
  extended := List.prefix_refl _
  mem_names_iff := by simp [hasked]
  faults_le := Nat.le_refl _
  count_eq _ := rfl

theorem Advances.trans {first second : Toll} {a b c : ContractBook} {m n : Nat}
    (h : keeping.Advances first a b m) (h' : keeping.Advances second b c n) :
    keeping.Advances (first + second) a c (m + n) where
  sound := h'.sound
  extended := h.extended.trans h'.extended
  mem_names_iff name := by
    rw [h'.mem_names_iff, h.mem_names_iff, Toll.asked_add, Set.mem_union, or_assoc]
  faults_le := Nat.add_le_add h.faults_le h'.faults_le
  count_eq hstrict := by
    have hfirst := h.count_eq hstrict
    have hsecond := h'.count_eq hstrict
    rw [Toll.faults_add]
    omega

namespace Accounts

variable {before : ContractBook} {toll later : Toll} {Shows : ContractBook → α → Prop}

theorem mono {Wanted : ContractBook → α → Prop} {work : BookWork α}
    (h : keeping.Accounts before toll Shows work)
    (hwanted : ∀ after value, before.Extends after → Shows after value → Wanted after value) :
    keeping.Accounts before toll Wanted work :=
  Work.Settles.mono h fun _ _ hholds => ⟨hholds.1, hwanted _ _ hholds.1.extended hholds.2⟩

theorem pure {value : α} (hbefore : keeping.Sound before) (h : Shows before value) :
    keeping.Accounts before 0 Shows (pure value) :=
  Work.Settles.pure ⟨.refl hbefore rfl, h⟩

theorem work {work : Work α} {Told : α → Prop} (h : work.Pays toll Told)
    (hasked : toll.asked = ∅) (hbefore : keeping.Sound before)
    (hshows : ∀ value, Told value → Shows before value) :
    keeping.Accounts before toll Shows (liftM work) := by
  change (work >>= fun value => Pure.pure (value, before)).Settles _ _ _
  rw [← and_true toll.fine]
  refine (h keeping.strict).bind fun value count _ hholds => ?_
  obtain ⟨htold, rfl⟩ := hholds
  exact .pure ⟨.refl hbefore hasked, hshows value htold⟩

theorem logged {logged : Logged α} (hbefore : keeping.Sound before)
    (h : Shows before logged.value) :
    keeping.Accounts before (.reporting logged.faults.length) Shows (liftM logged) :=
  have hpays : (liftM logged : Work α).Pays (.reporting logged.faults.length) (Shows before) :=
    .logged h
  .work hpays rfl hbefore fun _ => id

theorem throw (name : ClassName) (faults : Nat) (asked : Set ClassName) :
    keeping.Accounts before ⟨False, faults, asked⟩ Shows (throw (.classNotFound name)) :=
  Work.Settles.throw name

theorem bind {work : BookWork α} {next : α → BookWork β} {Result : ContractBook → β → Prop}
    (h : keeping.Accounts before toll Shows work)
    (hnext : ∀ value between count, keeping.Advances toll before between count →
      Shows between value → keeping.Accounts between later Result (next value)) :
    keeping.Accounts before (toll + later) Result (work >>= next) := by
  rw [Accounts, StateT.run_bind]
  refine Work.Settles.bind h fun ended count _ hholds => ?_
  obtain ⟨value, between⟩ := ended
  obtain ⟨hadvances, hshows⟩ := hholds
  refine Work.Settles.mono (hnext value between count hadvances hshows) fun result more hrest => ?_
  exact ⟨hadvances.trans hrest.1, hrest.2⟩

theorem bindLogged {logged : Logged α} {count : Nat} {next : α → BookWork β}
    {Result : ContractBook → β → Prop} (hcount : logged.faults.length = count)
    (hbefore : keeping.Sound before) (h : keeping.Accounts before toll Result (next logged.value)) :
    keeping.Accounts before (.reporting count + toll) Result (liftM logged >>= next) := by
  have hlogged : keeping.Accounts before (.reporting count)
      (fun after value => after = before ∧ value = logged.value) (liftM logged) :=
    hcount ▸ .logged hbefore ⟨rfl, rfl⟩
  refine hlogged.bind fun value between _ _ hvalue => ?_
  obtain ⟨rfl, rfl⟩ := hvalue
  exact h

theorem bindReport {message : String} {next : Unit → BookWork β}
    {Result : ContractBook → β → Prop} (hbefore : keeping.Sound before)
    (h : keeping.Accounts before toll Result (next ())) :
    keeping.Accounts before (.reporting 1 + toll) Result
      (liftM (Logged.report message) >>= next) :=
  bindLogged rfl hbefore h

theorem bindQuiet {logged : Logged α} {next : α → BookWork β} {Result : ContractBook → β → Prop}
    (hquiet : logged.faults.length = 0) (hbefore : keeping.Sound before)
    (h : keeping.Accounts before toll Result (next logged.value)) :
    keeping.Accounts before toll Result (liftM logged >>= next) := by
  rw [← zero_add toll]
  exact bindLogged hquiet hbefore h

theorem bindGet {next : ContractBook → BookWork β} {Result : ContractBook → β → Prop}
    (h : keeping.Accounts before toll Result (next before)) :
    keeping.Accounts before toll Result (get >>= next) :=
  h

theorem mapM {act : α → BookWork β} {toll : α → Toll}
    {Related : ContractBook → α → β → Prop}
    (hmono : ∀ a b x y, a.Extends b → Related a x y → Related b x y) (xs : List α)
    (hact : ∀ x ∈ xs, ∀ book, keeping.Sound book →
      keeping.Accounts book (toll x) (fun after => Related after x) (act x))
    (hbefore : keeping.Sound before) :
    keeping.Accounts before (xs.map toll).sum (fun after => List.Forall₂ (Related after) xs)
      (xs.mapM act) := by
  induction xs generalizing before with
  | nil =>
      rw [List.mapM_nil]
      exact .pure hbefore .nil
  | cons x xs ih =>
      rw [List.mapM_cons, List.map_cons, List.sum_cons]
      refine (hact x (List.mem_cons_self ..) before hbefore).bind
        fun y between _ hbetween hy => ?_
      rw [← add_zero (xs.map toll).sum]
      refine (ih (fun z hz => hact z (List.mem_cons_of_mem _ hz)) hbetween.sound).bind
        fun ys after _ hafter hys => ?_
      exact .pure hafter.sound (.cons (hmono _ _ _ _ hafter.extended hy) hys)

end Accounts

end Bookkeeping

end InjectionCompiler
