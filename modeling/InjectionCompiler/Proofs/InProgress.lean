import InjectionCompiler.Proofs.Inheritance

/-!
# Interfaces in progress

Interfaces may extend each other in a circle.  What ends the work is that an interface whose getters
are being worked out is answered with none, and one whose getters are known with these.  The work is
told here as visits without any bound on their depth: each interface is begun at most once, and all
visits end.
-/

namespace InjectionCompiler

/-- Where the work on getters stands. -/
structure GetterDesk where
  known : GetterTable
  /-- The interfaces that are being worked out, the last one first. -/
  inProgress : List ClassName
  /-- All interfaces that were ever begun. -/
  begun : List ClassName

namespace GetterDesk

instance : EmptyCollection GetterDesk := ⟨⟨∅, [], []⟩⟩

def enter (desk : GetterDesk) (name : ClassName) : GetterDesk :=
  { desk with inProgress := name :: desk.inProgress, begun := desk.begun ++ [name] }

def finish (desk : GetterDesk) (name : ClassName) (getters : List Getter) : GetterDesk :=
  { desk with
    known := desk.known.insert name getters
    inProgress := desk.inProgress.erase name }

/-- What is answered at once: known getters, and none for an interface in progress. -/
def answer? (desk : GetterDesk) (name : ClassName) : Option (List Getter) :=
  (desk.known.find? name).or (if name ∈ desk.inProgress then some [] else none)

/-- No interface was begun twice, and each one begun is finished or in progress. -/
structure Sound (desk : GetterDesk) : Prop where
  once : desk.begun.Nodup
  accounted : ∀ name ∈ desk.begun, name ∈ desk.known.keys ∨ name ∈ desk.inProgress

theorem sound_empty : Sound ∅ :=
  ⟨.nil, fun _ h => absurd h List.not_mem_nil⟩

theorem answer?_eq_none_iff {desk : GetterDesk} {name : ClassName} :
    desk.answer? name = none ↔ desk.known.find? name = none ∧ name ∉ desk.inProgress := by
  simp [answer?]

theorem inProgress_finish {desk : GetterDesk} {name : ClassName} {rest : List ClassName}
    (h : desk.inProgress = name :: rest) (getters : List Getter) :
    (desk.finish name getters).inProgress = rest := by
  simp [finish, h]

theorem Sound.enter {desk : GetterDesk} (h : desk.Sound) {name : ClassName}
    (hnew : desk.answer? name = none) : (desk.enter name).Sound := by
  obtain ⟨hknown, hprogress⟩ := answer?_eq_none_iff.1 hnew
  have hbegun : name ∉ desk.begun := by
    intro hmem
    rcases h.accounted name hmem with hkey | hmem
    · rw [← Table.find?_isSome_iff, hknown] at hkey
      cases hkey
    · exact hprogress hmem
  constructor
  · rw [GetterDesk.enter, ← List.concat_eq_append]
    exact h.once.concat hbegun
  · intro other hother
    rcases List.mem_append.1 hother with hother | hother
    · exact (h.accounted other hother).imp_right (List.mem_cons_of_mem _)
    · exact .inr (List.mem_cons.2 (.inl (List.mem_singleton.1 hother)))

theorem Sound.finish {desk : GetterDesk} (h : desk.Sound) (name : ClassName)
    (getters : List Getter) : (desk.finish name getters).Sound := by
  refine ⟨h.once, fun other hother => ?_⟩
  rw [GetterDesk.finish, Table.mem_keys_insert]
  by_cases heq : other = name
  · exact .inl (.inl heq)
  · exact (h.accounted other hother).imp .inr (List.mem_erase_of_ne heq).2

end GetterDesk

namespace ClassPath

/-! ## Visits -/

/-- The getters of a class, told by those that it inherits. -/
def gettersFrom (path : ClassPath) (decl : ClassDecl) (inherited : List Getter) : List Getter :=
  if decl.isPlainInterface then mergedGetters (path.ownGetters decl) inherited else []

/-- Interfaces are visited one after another: what comes of it, and how the desk stands then. -/
inductive Visits (path : ClassPath) :
    GetterDesk → List ClassName → Except Failure (List Getter) → GetterDesk → Prop where
  | nil (desk : GetterDesk) : path.Visits desk [] (.ok []) desk
  | unknown {desk : GetterDesk} {name : ClassName} {names : List ClassName}
      (hunknown : path.find? name = none) :
      path.Visits desk (name :: names) (.error (.classNotFound name)) desk
  | answered {desk after : GetterDesk} {name : ClassName} {names : List ClassName}
      {decl : ClassDecl} {getters : List Getter} {outcome : Except Failure (List Getter)}
      (hdecl : path.find? name = some decl) (hanswer : desk.answer? name = some getters)
      (hrest : path.Visits desk names outcome after) :
      path.Visits desk (name :: names) (outcome.map (getters ++ ·)) after
  | computed {desk inner after : GetterDesk} {name : ClassName} {names : List ClassName}
      {decl : ClassDecl} {inherited : List Getter} {outcome : Except Failure (List Getter)}
      (hdecl : path.find? name = some decl) (hnew : desk.answer? name = none)
      (hparents : path.Visits (desk.enter name) (path.superInterfaces name) (.ok inherited) inner)
      (hrest : path.Visits (inner.finish name (path.gettersFrom decl inherited)) names outcome
        after) :
      path.Visits desk (name :: names) (outcome.map (path.gettersFrom decl inherited ++ ·)) after
  | failed {desk after : GetterDesk} {name : ClassName} {names : List ClassName}
      {decl : ClassDecl} {failure : Failure}
      (hdecl : path.find? name = some decl) (hnew : desk.answer? name = none)
      (hparents : path.Visits (desk.enter name) (path.superInterfaces name) (.error failure)
        after) :
      path.Visits desk (name :: names) (.error failure) after

namespace Visits

variable {path : ClassPath} {desk after : GetterDesk} {names : List ClassName}
  {outcome : Except Failure (List Getter)}

theorem isOk_of_isOk_map {change : List Getter → List Getter}
    (h : (outcome.map change).isOk = true) : outcome.isOk = true := by
  cases outcome <;> simp_all [Except.map, Except.isOk, Except.toBool]

theorem inProgress_eq (h : path.Visits desk names outcome after) (hok : outcome.isOk = true) :
    after.inProgress = desk.inProgress := by
  induction h with
  | nil desk => rfl
  | unknown => cases hok
  | answered _ _ _ ih => exact ih (isOk_of_isOk_map hok)
  | computed _ _ _ _ ihParents ihRest =>
      rw [ihRest (isOk_of_isOk_map hok), GetterDesk.inProgress_finish (ihParents rfl)]
  | failed => cases hok

/-- Each interface is begun at most once, also when the visits fail. -/
theorem sound (h : path.Visits desk names outcome after) (hdesk : desk.Sound) : after.Sound := by
  induction h with
  | nil | unknown => exact hdesk
  | answered _ _ _ ih => exact ih hdesk
  | computed _ hnew _ _ ihParents ihRest => exact ihRest ((ihParents (hdesk.enter hnew)).finish _ _)
  | failed _ hnew _ ih => exact ih (hdesk.enter hnew)

theorem unique {other : Except Failure (List Getter)} {last : GetterDesk}
    (h : path.Visits desk names outcome after) (h' : path.Visits desk names other last) :
    outcome = other ∧ after = last := by
  induction h generalizing other last with
  | nil =>
      cases h'
      exact ⟨rfl, rfl⟩
  | unknown hunknown =>
      cases h' <;> simp_all
  | answered hdecl hanswer _ ih =>
      cases h' with
      | unknown hunknown => simp_all
      | answered _ hanswer' hrest' =>
          obtain ⟨rfl, rfl⟩ := ih hrest'
          cases hanswer.symm.trans hanswer'
          exact ⟨rfl, rfl⟩
      | computed _ hnew => simp_all
      | failed _ hnew => simp_all
  | computed hdecl hnew _ _ ihParents ihRest =>
      cases h' with
      | unknown hunknown => simp_all
      | answered _ hanswer => simp_all
      | computed hdecl' _ hparents' hrest' =>
          cases hdecl.symm.trans hdecl'
          obtain ⟨hinherited, rfl⟩ := ihParents hparents'
          cases hinherited
          obtain ⟨rfl, rfl⟩ := ihRest hrest'
          exact ⟨rfl, rfl⟩
      | failed _ _ hparents' => cases (ihParents hparents').1
  | failed _ hnew _ ih =>
      cases h' with
      | unknown hunknown => simp_all
      | answered _ hanswer => simp_all
      | computed _ _ hparents' => cases (ih hparents').1
      | failed _ _ hparents' => exact ih hparents'

theorem map_append_eq_ok {getters all : List Getter} (h : outcome.map (getters ++ ·) = .ok all) :
    ∃ others, outcome = .ok others ∧ all = getters ++ others := by
  obtain ⟨others, houtcome, rfl⟩ := exists_ok_of_map_eq_ok h
  exact ⟨others, houtcome, rfl⟩

theorem map_append_map_append (first second : List Getter) :
    (outcome.map (second ++ ·)).map (first ++ ·) = outcome.map (first ++ second ++ ·) := by
  cases outcome <;> simp [Except.map]

theorem append {others : List ClassName} {found : Except Failure (List Getter)}
    {getters : List Getter} {last : GetterDesk} (h : path.Visits desk names found after)
    (hfound : found = .ok getters) (h' : path.Visits after others outcome last) :
    path.Visits desk (names ++ others) (outcome.map (getters ++ ·)) last := by
  induction h generalizing getters with
  | nil =>
      cases hfound
      cases outcome <;> exact h'
  | unknown => cases hfound
  | answered hdecl hanswer _ ih =>
      obtain ⟨later, hlater, rfl⟩ := map_append_eq_ok hfound
      rw [← map_append_map_append]
      exact .answered hdecl hanswer (ih hlater h')
  | computed hdecl hnew hparents _ _ ihRest =>
      obtain ⟨later, hlater, rfl⟩ := map_append_eq_ok hfound
      rw [← map_append_map_append]
      exact .computed hdecl hnew hparents (ihRest hlater h')
  | failed => cases hfound

end Visits

theorem exists_visits (path : ClassPath) (desk : GetterDesk) (names : List ClassName) :
    ∃ outcome after, path.Visits desk names outcome after := by
  -- The outer induction is on how many interfaces are not in progress, the inner one on the names:
  -- visits that go well put everything back in progress as it was.
  induction hcount : path.offTrail desk.inProgress using Nat.strongRecOn
    generalizing desk names with
  | _ count ih =>
      induction names generalizing desk with
      | nil => exact ⟨_, _, .nil desk⟩
      | cons name names ihNames =>
          cases hdecl : path.find? name with
          | none => exact ⟨_, _, .unknown hdecl⟩
          | some decl =>
              cases hanswer : desk.answer? name with
              | some getters =>
                  obtain ⟨outcome, after, hrest⟩ := ihNames desk hcount
                  exact ⟨_, _, .answered hdecl hanswer hrest⟩
              | none =>
                  have hless := offTrail_cons_lt hdecl (GetterDesk.answer?_eq_none_iff.1 hanswer).2
                  rw [hcount] at hless
                  obtain ⟨outcome | inherited, inner, hparents⟩ :=
                    ih _ hless (desk.enter name) (path.superInterfaces name) rfl
                  · exact ⟨_, _, .failed hdecl hanswer hparents⟩
                  · have hback : (inner.finish name (path.gettersFrom decl inherited)).inProgress =
                        desk.inProgress :=
                      GetterDesk.inProgress_finish (hparents.inProgress_eq rfl) _
                    obtain ⟨outcome, after, hrest⟩ :=
                      ihNames (inner.finish name _) (by rw [hback, hcount])
                    exact ⟨_, _, .computed hdecl hanswer hparents hrest⟩

/-! ## Reading getters -/

variable {path : ClassPath}

theorem readGetters_of_unknown {trail : List ClassName} {name : ClassName} {known : GetterTable}
    (hunknown : path.find? name = none) :
    path.readGetters trail name known = throw (.classNotFound name) := by
  rw [readGetters]
  split
  · rfl
  · next hdecl => cases hunknown.symm.trans hdecl

theorem readGetters_of_answer {desk : GetterDesk} {name : ClassName} {decl : ClassDecl}
    {getters : List Getter} (hdecl : path.find? name = some decl)
    (hanswer : desk.answer? name = some getters) :
    path.readGetters desk.inProgress name desk.known = pure (getters, desk.known) := by
  rw [readGetters]
  split
  · next hnone => cases hdecl.symm.trans hnone
  · cases hknown : desk.known.find? name <;> simp_all [GetterDesk.answer?]

/-- The work on one interface, once the getters that it inherits are known. -/
def workOut (path : ClassPath) (decl : ClassDecl) (inherited : List Getter) :
    Logged (List Getter) := do
  if ← checkContractClass decl then
    let own ← path.readOwnGetters decl
    mergeGetters decl.name own inherited
  else
    return []

theorem value_workOut (decl : ClassDecl) (inherited : List Getter) :
    (path.workOut decl inherited).value = path.gettersFrom decl inherited := by
  rw [workOut, Logged.value_bind, (checkContractClass_spec decl).1, gettersFrom]
  split
  · rw [Logged.value_bind, value_readOwnGetters]
    rfl
  · rfl

theorem checkContractClass_eq_pure {decl : ClassDecl} (hplain : decl.isPlainInterface = true) :
    checkContractClass decl = pure true := by
  obtain ⟨hinterface, hparameters⟩ := Bool.and_eq_true_iff.1 hplain
  simp [checkContractClass, hinterface, hparameters]

theorem readGetters_of_new {desk : GetterDesk} {name : ClassName} {decl : ClassDecl}
    (hdecl : path.find? name = some decl) (hnew : desk.answer? name = none) :
    path.readGetters desk.inProgress name desk.known = (do
      let read ← readAllGetters (path.readGetters (name :: desk.inProgress))
        (path.superInterfaces name) desk.known
      let getters ← path.workOut decl read.1
      return (getters, read.2.insert name getters)) := by
  -- Neither the table nor the trail answers, so the class is read.
  obtain ⟨hknown, htrail⟩ := GetterDesk.answer?_eq_none_iff.1 hnew
  have hsuper := superInterfaces.eq_1 path name
  simp only [hdecl] at hsuper
  have hcheck := (checkContractClass_spec decl).1
  rw [readGetters]
  split
  · next hnone => cases hdecl.symm.trans hnone
  · next held hheld =>
      cases hdecl.symm.trans hheld
      simp only [hknown, htrail, dif_neg, not_false_eq_true]
      cases hplain : decl.isPlainInterface with
      | false =>
          rw [hplain] at hsuper hcheck
          rw [hsuper, if_neg Bool.false_ne_true]
          change _ = (pure ([], desk.known) >>= _)
          rw [pure_bind, workOut, liftM_bind, bind_assoc]
          refine Work.logged_bind_congr ?_
          rw [hcheck]
          simp only [Bool.false_eq_true, if_false, liftM_pure, pure_bind]
      | true =>
          rw [hplain] at hsuper
          rw [hsuper, if_pos rfl]
          simp only [workOut, checkContractClass_eq_pure hplain, name_of_find? hdecl, pure_bind,
            liftM_pure, if_true, liftM_bind, bind_assoc]

theorem result_readGetters_of_new {desk : GetterDesk} {name : ClassName} {decl : ClassDecl}
    (hdecl : path.find? name = some decl) (hnew : desk.answer? name = none) :
    (path.readGetters desk.inProgress name desk.known).result =
      (readAllGetters (path.readGetters (name :: desk.inProgress)) (path.superInterfaces name)
        desk.known).result.map fun read =>
          (path.gettersFrom decl read.1, read.2.insert name (path.gettersFrom decl read.1)) := by
  rw [readGetters_of_new hdecl hnew, Work.result_bind]
  cases (readAllGetters (path.readGetters (name :: desk.inProgress)) (path.superInterfaces name)
    desk.known).result with
  | error failure => rfl
  | ok read =>
      rw [Except.map, ← value_workOut]
      rfl

theorem result_andThen {later : Work (List Getter × GetterTable)} {getters : List Getter}
    {outcome : Except Failure (List Getter)} {known : GetterTable}
    (h : later.result = outcome.map fun others => (others, known)) :
    (later >>= fun read => pure (getters ++ read.1, read.2) : Work _).result =
      (outcome.map (getters ++ ·)).map fun all => (all, known) := by
  rw [Work.result_bind, h]
  cases outcome <;> rfl

theorem Visits.result_readAllGetters {desk after : GetterDesk} {names : List ClassName}
    {outcome : Except Failure (List Getter)} (h : path.Visits desk names outcome after) :
    (readAllGetters (path.readGetters desk.inProgress) names desk.known).result =
      outcome.map fun getters => (getters, after.known) := by
  induction h with
  | nil desk => rfl
  | unknown hunknown =>
      rw [readAllGetters, readGetters_of_unknown hunknown]
      rfl
  | answered hdecl hanswer _ ih =>
      rw [readAllGetters, readGetters_of_answer hdecl hanswer, pure_bind]
      exact result_andThen ih
  | @computed desk inner _ name _ _ inherited _ hdecl hnew hparents _ ihParents ihRest =>
      have hinherited : (readAllGetters (path.readGetters (name :: desk.inProgress))
          (path.superInterfaces name) desk.known).result = .ok (inherited, inner.known) := ihParents
      rw [GetterDesk.inProgress_finish (hparents.inProgress_eq rfl)] at ihRest
      rw [readAllGetters, Work.result_bind, result_readGetters_of_new hdecl hnew, hinherited]
      exact result_andThen ihRest
  | @failed desk _ name _ _ failure hdecl hnew _ ih =>
      have hfailure : (readAllGetters (path.readGetters (name :: desk.inProgress))
          (path.superInterfaces name) desk.known).result = .error failure := ih
      rw [readAllGetters, Work.result_bind, result_readGetters_of_new hdecl hnew, hfailure]
      rfl

theorem exists_visits_of_readGetters {desk : GetterDesk} {name : ClassName}
    {read : List Getter × GetterTable}
    (h : (path.readGetters desk.inProgress name desk.known).result = .ok read) :
    ∃ after, path.Visits desk [name] (.ok read.1) after ∧ after.known = read.2 := by
  obtain ⟨outcome, after, hvisits⟩ := path.exists_visits desk [name]
  have hresult := hvisits.result_readAllGetters
  rw [readAllGetters, Work.result_bind, h] at hresult
  cases outcome with
  | error failure => cases hresult
  | ok getters =>
      have hpair := Prod.mk.inj (Except.ok.inj hresult)
      rw [List.append_nil] at hpair
      exact ⟨after, hpair.1 ▸ hvisits, hpair.2.symm⟩

/-! ## What reading tells -/

section

variable {read : ClassName → GetterTable → Work (List Getter × GetterTable)} {name : ClassName}
  {names : List ClassName} {known : GetterTable}

theorem events_readAllGetters_cons {found : List Getter × GetterTable}
    (h : (read name known).result = .ok found) :
    (readAllGetters read (name :: names) known).events =
      (read name known).events ++ (readAllGetters read names found.2).events := by
  rw [readAllGetters, Work.events_bind h]
  congr 1
  cases hrest : (readAllGetters read names found.2).result with
  | error failure => exact Work.events_bind_of_error hrest
  | ok others =>
      rw [Work.events_bind hrest]
      exact List.append_nil _

theorem events_readAllGetters_of_error {failure : Failure}
    (h : (read name known).result = .error failure) :
    (readAllGetters read (name :: names) known).events = (read name known).events := by
  rw [readAllGetters, Work.events_bind_of_error h]

end

theorem events_readGetters_of_new {desk : GetterDesk} {name : ClassName} {decl : ClassDecl}
    {read : List Getter × GetterTable} (hdecl : path.find? name = some decl)
    (hnew : desk.answer? name = none)
    (hparents : (readAllGetters (path.readGetters (name :: desk.inProgress))
      (path.superInterfaces name) desk.known).result = .ok read) :
    (path.readGetters desk.inProgress name desk.known).events =
      (readAllGetters (path.readGetters (name :: desk.inProgress)) (path.superInterfaces name)
        desk.known).events ++ (path.workOut decl read.1).events := by
  rw [readGetters_of_new hdecl hnew, Work.events_bind hparents,
    Work.events_bind (Work.result_logged _), Work.events_logged]
  exact congrArg _ (List.append_nil _)

/-- What is told on the way is what working out the interfaces begun on the way tells, each of them
once: all of them where the visits succeed. -/
theorem Visits.exists_worked {desk after : GetterDesk} {names : List ClassName}
    {outcome : Except Failure (List Getter)} (h : path.Visits desk names outcome after) :
    ∃ (fresh : List ClassName) (worked : List (ClassDecl × List Getter)),
      after.begun = desk.begun ++ fresh ∧
      (worked.map fun item => item.1.name).Subperm fresh ∧
      (outcome.isOk = true → (worked.map fun item => item.1.name).Perm fresh) ∧
      (readAllGetters (path.readGetters desk.inProgress) names desk.known).events =
        worked.flatMap fun item => (path.workOut item.1 item.2).events := by
  induction h with
  | nil desk => exact ⟨[], [], (List.append_nil _).symm, .refl _, fun _ => .refl _, rfl⟩
  | unknown hunknown =>
      refine ⟨[], [], (List.append_nil _).symm, .refl _, fun _ => .refl _, ?_⟩
      rw [readAllGetters, readGetters_of_unknown hunknown]
      rfl
  | answered hdecl hanswer _ ih =>
      obtain ⟨fresh, worked, hbegun, hsub, hperm, htold⟩ := ih
      refine ⟨fresh, worked, hbegun, hsub, fun hok => hperm (isOk_of_isOk_map hok), ?_⟩
      have hanswered := readGetters_of_answer hdecl hanswer
      rw [events_readAllGetters_cons (congrArg Work.result hanswered), hanswered]
      exact htold
  | @computed desk inner _ name _ decl inherited _ hdecl hnew hparents hrest ihParents ihRest =>
      obtain ⟨fresh, worked, hbegun, -, hperm, htold⟩ := ihParents
      obtain ⟨fresh', worked', hbegun', hsub', hperm', htold'⟩ := ihRest
      have hinherited : (readAllGetters (path.readGetters (name :: desk.inProgress))
          (path.superInterfaces name) desk.known).result = .ok (inherited, inner.known) :=
        hparents.result_readAllGetters
      rw [GetterDesk.inProgress_finish (hparents.inProgress_eq rfl)] at htold'
      have hread := result_readGetters_of_new hdecl hnew
      rw [hinherited] at hread
      have hnames : ((worked ++ (decl, inherited) :: worked').map fun item => item.1.name).Perm
          (name :: (fresh ++ worked'.map fun item => item.1.name)) := by
        rw [List.map_append, List.map_cons, name_of_find? hdecl]
        exact List.perm_middle.trans (.cons name ((hperm rfl).append_right _))
      refine ⟨name :: fresh ++ fresh', worked ++ (decl, inherited) :: worked', ?_, ?_, ?_, ?_⟩
      · rw [hbegun', GetterDesk.finish, hbegun, GetterDesk.enter, List.append_assoc,
          List.append_assoc]
        rfl
      · have hrest' := (List.subperm_append_left fresh).2 hsub'
        exact hnames.subperm.trans ((List.subperm_cons name).2 hrest')
      · intro hok
        have hrest' := hperm' (isOk_of_isOk_map hok)
        exact hnames.trans (.cons name (hrest'.append_left fresh))
      · rw [events_readAllGetters_cons hread, events_readGetters_of_new hdecl hnew hinherited,
          List.flatMap_append, List.flatMap_cons, List.append_assoc]
        exact congr_arg₂ _ htold (congrArg _ htold')
  | @failed desk _ name _ _ failure hdecl hnew hparents ih =>
      obtain ⟨fresh, worked, hbegun, hsub, -, htold⟩ := ih
      have hfailure : (readAllGetters (path.readGetters (name :: desk.inProgress))
          (path.superInterfaces name) desk.known).result = .error failure :=
        hparents.result_readAllGetters
      have hread := result_readGetters_of_new hdecl hnew
      rw [hfailure] at hread
      refine ⟨name :: fresh, worked, ?_, hsub.cons_right name,
        fun hok => absurd hok Bool.false_ne_true, ?_⟩
      · rw [hbegun, GetterDesk.enter, List.append_assoc]
        rfl
      · rw [events_readAllGetters_of_error hread, readGetters_of_new hdecl hnew,
          Work.events_bind_of_error hfailure]
        exact htold

end ClassPath

/-! ## The book of contracts -/

/-- The contracts were visited in the order in which they stand in the book, each with the getters
that it has. -/
def ContractBook.Visited (path : ClassPath) (book : ContractBook) : Prop :=
  ∃ desk, path.Visits ∅ book.contracts.names
    (.ok (book.contracts.items.flatMap Contract.getters)) desk ∧ desk.known = book.getters

theorem ContractBook.visited_empty (path : ClassPath) : Visited path ∅ :=
  ⟨∅, .nil _, rfl⟩

namespace ClassPath

variable {path : ClassPath} {project : String}

theorem keepsVisited_readContract (name : ClassName) :
    Keeps (ContractBook.Visited path) (path.readContract project name) := by
  rintro before id after ⟨desk, hvisits, hknown⟩ h
  rcases readContract_spec h with ⟨-, rfl⟩ | ⟨contract, -, -, hinsert, hnew, hread⟩
  · exact ⟨desk, hvisits, hknown⟩
  · have hidle : desk.inProgress = [] := hvisits.inProgress_eq rfl
    rw [← hknown, ← hidle] at hread
    obtain ⟨last, hlast, hlastKnown⟩ := exists_visits_of_readGetters hread
    have hentries : after.contracts.table.entries =
        before.contracts.table.entries ++ [(name, contract)] := by
      rw [← Arena.insert_of_find?_eq_none hnew contract, hinsert]
    simp only [ContractBook.Visited, Arena.names, Arena.items, Table.keys, Table.values, hentries,
      List.map_append, List.flatMap_append] at hvisits ⊢
    refine ⟨last, ?_, hlastKnown⟩
    simpa [Except.map] using hvisits.append rfl hlast

end ClassPath

end InjectionCompiler
