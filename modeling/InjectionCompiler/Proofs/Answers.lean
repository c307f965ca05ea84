import InjectionCompiler.Proofs.Conflicts
import InjectionCompiler.Proofs.Reports

/-!
# Answers about contracts

The table of getters remembers which interfaces were worked out.  Each contract that is looked up
has the getters that the recursion over its interfaces tells, whatever was looked up before, and
over a whole run each conflict is reported once, whichever contracts lead to its interface.
-/

namespace InjectionCompiler

open Relation (ReflTransGen)
open GetterTable (WorkedOut Grows)

/-! ## Quiet texts -/

def Logged.Quiet {α : Type} (logged : Logged α) : Prop :=
  ∀ text ∈ logged.faults, ¬ Conflict.IsText text

namespace Logged.Quiet

variable {α β : Type}

theorem pure (value : α) : (pure value : Logged α).Quiet :=
  fun _ h => absurd h List.not_mem_nil

theorem bind {step : Logged α} {next : α → Logged β} (h : step.Quiet)
    (hnext : ∀ value, (next value).Quiet) : (step >>= next).Quiet := by
  intro text htext
  rw [faults_bind, List.mem_append] at htext
  exact htext.elim (h text) (hnext _ text)

theorem debug (message : String) (fields : List (String × String)) :
    (debug message fields).Quiet :=
  fun _ h => absurd h List.not_mem_nil

theorem complaint {front : String} {letter : Char} {rest : List Char}
    (hfront : front.toList = letter :: rest) (hletter : letter ≠ 'I') (back : String) (value : α) :
    (Logged.report (front ++ back) >>= fun _ => Pure.pure value).Quiet := by
  intro text htext
  rw [faults_bind, faults_report, faults_pure, List.append_nil, List.mem_singleton] at htext
  rw [htext]
  exact Conflict.not_isText hfront hletter back

theorem mapM {act : α → Logged β} {xs : List α} (hact : ∀ x ∈ xs, (act x).Quiet) :
    (xs.mapM act).Quiet := by
  intro text htext
  rw [faults_mapM] at htext
  obtain ⟨x, hx, htext⟩ := List.mem_flatMap.1 htext
  exact hact x hx text htext

end Logged.Quiet

namespace ClassPath

variable {path : ClassPath}

theorem quiet_readQualifier (annotations : List Annotation) (element : String) :
    (path.readQualifier annotations element).Quiet := by
  unfold readQualifier
  split
  · exact .pure _
  · exact .pure _
  · rw [String.append_assoc]
    exact .complaint rfl (by decide) _ _

theorem quiet_readDependency (type : Signature) (qualifier : Option Annotation) (element : String) :
    (readDependency type qualifier element).Quiet := by
  unfold readDependency
  split
  · exact .pure _
  · exact .pure _
  · simp only [String.append_assoc]
    exact .complaint rfl (by decide) _ _

theorem quiet_readGetter (decl : ClassDecl) (method : MethodDecl) :
    (path.readGetter decl method).Quiet := by
  unfold readGetter
  simp only [String.append_assoc]
  split
  · exact .complaint rfl (by decide) _ _
  split
  · exact .complaint rfl (by decide) _ _
  refine .bind (.bind (quiet_readQualifier _ _) fun _ => quiet_readDependency _ _ _) fun _ => ?_
  split
  · exact .complaint rfl (by decide) _ _
  · exact .bind (.debug _ _) fun _ => .pure _

theorem quiet_readOwnGetters (decl : ClassDecl) : (path.readOwnGetters decl).Quiet :=
  .bind (.mapM fun method _ => quiet_readGetter decl method) fun _ => .pure _

theorem quiet_checkContractClass (decl : ClassDecl) : (checkContractClass decl).Quiet := by
  unfold checkContractClass
  split
  · exact .complaint rfl (by decide) _ _
  split
  · exact .complaint rfl (by decide) _ _
  · exact .pure _

end ClassPath

/-! ## What working interfaces out reports -/

def GetterTable.Reported (path : ClassPath) (hlayered : path.Layered) (known after : GetterTable)
    (texts : List String) : Prop :=
  ∃ entered, after.keys = known.keys ++ entered ∧
    texts.filter (fun text => Conflict.IsText text) =
      (entered.flatMap (path.conflictsOf hlayered)).map Conflict.text

namespace GetterTable.Reported

variable {path : ClassPath} {hlayered : path.Layered} {known between after : GetterTable}
  {texts others : List String}

theorem quiet (h : ∀ text ∈ texts, ¬ Conflict.IsText text) :
    Reported path hlayered known known texts := by
  refine ⟨[], (List.append_nil _).symm, List.filter_eq_nil_iff.2 fun text htext => ?_⟩
  simpa using h text htext

theorem refl : Reported path hlayered known known [] :=
  .quiet fun _ h => absurd h List.not_mem_nil

theorem trans (h : Reported path hlayered known between texts)
    (h' : Reported path hlayered between after others) :
    Reported path hlayered known after (texts ++ others) := by
  obtain ⟨first, hkeys, htexts⟩ := h
  obtain ⟨second, hkeys', hothers⟩ := h'
  refine ⟨first ++ second, ?_, ?_⟩
  · rw [hkeys', hkeys, List.append_assoc]
  · rw [List.filter_append, htexts, hothers, List.flatMap_append, List.map_append]

theorem insert {name : ClassName} {getters : List Getter} (hnew : name ∉ known.keys) :
    Reported path hlayered known (Table.insert known name getters)
      ((path.conflictsOf hlayered name).map Conflict.text) := by
  refine ⟨[name], by rw [Table.keys_insert, if_neg hnew], ?_⟩
  rw [List.flatMap_singleton, List.filter_eq_self]
  intro text htext
  obtain ⟨conflict, -, rfl⟩ := List.mem_map.1 htext
  exact decide_eq_true conflict.isText_text

end GetterTable.Reported

namespace ClassPath

variable {path : ClassPath} {hlayered : path.Layered}

def ReportsEntered (path : ClassPath) (hlayered : path.Layered)
    (read : ClassName → GetterTable → Work (List Getter × GetterTable)) (name : ClassName) : Prop :=
  ∀ known ended texts, WorkedOut path hlayered known → (read name known).Reports ended texts →
    GetterTable.Reported path hlayered known ended.2 texts

theorem reportsEntered_readAllGetters
    {read : ClassName → GetterTable → Work (List Getter × GetterTable)} {names : List ClassName}
    (hread : ∀ name ∈ names, path.WorksOut hlayered read name)
    (hreports : ∀ name ∈ names, path.ReportsEntered hlayered read name) {known : GetterTable}
    {ended : List Getter × GetterTable} {texts : List String}
    (hknown : WorkedOut path hlayered known)
    (h : (readAllGetters read names known).Reports ended texts) :
    GetterTable.Reported path hlayered known ended.2 texts := by
  induction names generalizing known ended texts with
  | nil =>
      obtain ⟨rfl, rfl⟩ := Work.reports_pure.1 h
      exact .refl
  | cons name names ih =>
      simp only [readAllGetters, Work.reports_bind, Work.reports_pure] at h
      obtain ⟨first, _, _, hfirst, ⟨others, _, _, hsecond, ⟨rfl, rfl⟩, rfl⟩, rfl⟩ := h
      have hgrows := ((hread name (List.mem_cons_self ..) known hknown).of_ok hfirst.1).1.2
      rw [List.append_nil]
      have hrest := ih (fun other hother => hread other (List.mem_cons_of_mem _ hother))
        (fun other hother => hreports other (List.mem_cons_of_mem _ hother)) hgrows.workedOut
        hsecond
      exact (hreports name (List.mem_cons_self ..) _ _ _ hknown hfirst).trans hrest

theorem reported_newInterface {name : ClassName} {decl : ClassDecl}
    (hdecl : path.find? name = some decl)
    {read : ClassName → GetterTable → Work (List Getter × GetterTable)}
    (hread : ∀ parent ∈ path.superInterfaces name, path.WorksOut hlayered read parent)
    (hreports : ∀ parent ∈ path.superInterfaces name, path.ReportsEntered hlayered read parent)
    {known : GetterTable} {ended : List Getter × GetterTable} {texts : List String}
    (hknown : WorkedOut path hlayered known) (hnew : name ∉ known.keys)
    (h : (path.newInterface read name decl known).Reports ended texts) :
    GetterTable.Reported path hlayered known ended.2 texts := by
  unfold newInterface at h
  obtain ⟨hvalue, -⟩ := checkContractClass_spec decl
  have hsuper := ClassPath.superInterfaces.eq_1 path name
  simp only [hdecl] at hsuper
  rw [Work.reports_bind] at h
  obtain ⟨accepted, _, rest, hcheck, h, rfl⟩ := h
  obtain ⟨rfl, rfl⟩ := Work.reports_logged.1 hcheck
  refine (GetterTable.Reported.quiet (quiet_checkContractClass decl)).trans ?_
  rw [hvalue] at h
  split at h
  · next hplain =>
      rw [if_pos hplain] at hsuper
      simp only [Work.reports_bind, Work.reports_logged, Work.reports_pure] at h
      obtain ⟨⟨inherited, between⟩, _, _, hall, ⟨_, _, _, ⟨rfl, rfl⟩,
        ⟨_, _, _, ⟨rfl, rfl⟩, ⟨rfl, rfl⟩, rfl⟩, rfl⟩, rfl⟩ := h
      rw [hsuper] at hread hreports
      obtain ⟨rfl, hgrows⟩ := ((settles_readAllGetters hread hknown).of_ok hall.1).1
      have hmissing : name ∉ between.keys := by
        rw [← hsuper] at hgrows
        exact not_mem_keys_of_grows hnew hgrows
      refine (reportsEntered_readAllGetters hread hreports hknown hall).trans ?_
      refine (GetterTable.Reported.quiet (quiet_readOwnGetters decl)).trans ?_
      rw [List.append_nil, faults_mergeGetters, value_readOwnGetters, ← conflictsOf_eq hdecl hplain]
      exact .insert hmissing
  · next hplain =>
      have hnone : path.conflictsOf hlayered name = [] := by simp [conflictsOf, hdecl, hplain]
      obtain ⟨rfl, rfl⟩ := Work.reports_pure.1 h
      have hinsert : GetterTable.Reported path hlayered known (Table.insert known name [])
          ((path.conflictsOf hlayered name).map Conflict.text) := .insert hnew
      rwa [hnone] at hinsert

theorem reportsEntered_readGetters (name : ClassName) {trail : List ClassName}
    (htrail : ∀ earlier ∈ trail, ¬ ReflTransGen path.Inherits name earlier) :
    path.ReportsEntered hlayered (path.readGetters trail) name := by
  -- The induction is that of `worksOut_readGetters`, which tells what the interfaces below offer.
  induction name using hlayered.wellFounded.induction generalizing trail with
  | _ name ih =>
      intro known ended texts hknown h
      rw [readGetters] at h
      split at h
      · exact absurd h (Work.not_reports_throw _)
      · next decl hdecl =>
          split at h
          · obtain ⟨rfl, rfl⟩ := Work.reports_pure.1 h
            exact .refl
          · next hnone =>
              rw [dif_neg fun hmem => htrail name hmem .refl] at h
              have hnew : name ∉ known.keys := fun hmem => by
                rw [← Table.find?_isSome_iff, hnone] at hmem
                cases hmem
              exact reported_newInterface hdecl
                (fun parent hparent =>
                  worksOut_readGetters parent (hlayered.apart_cons hparent htrail))
                (fun parent hparent => ih parent hparent (hlayered.apart_cons hparent htrail))
                hknown hnew h

theorem reported_readContract {project : String} {name : ClassName} {before after : ContractBook}
    (hbefore : ContractBook.Exact path hlayered project before) {id : Id .contract}
    {texts : List String}
    (h : ((path.readContract project name).run before).Reports (id, after) texts) :
    GetterTable.Reported path hlayered before.getters after.getters texts := by
  have hqualifier : ∀ annotations, GetterTable.Reported path hlayered before.getters before.getters
      (path.readQualifier annotations name.display).faults :=
    fun annotations => .quiet (quiet_readQualifier annotations name.display)
  have hreports : path.ReportsEntered hlayered (path.readGetters []) name :=
    reportsEntered_readGetters name fun _ h => absurd h List.not_mem_nil
  unfold readContract at h
  rw [StateT.run_bind, StateT.run_get, pure_bind] at h
  dsimp only at h
  split at h
  · obtain ⟨rfl, rfl, rfl⟩ := BookWork.reports_pure.1 h
    exact .refl
  · split at h
    · next decl _ =>
        simp only [BookWork.reports_bind, BookWork.reports_logged, BookWork.reports_work,
          BookWork.reports_set, BookWork.reports_pure] at h
        obtain ⟨_, _, _, _, ⟨⟨-, rfl⟩, rfl⟩, ⟨_, _, _, _, ⟨⟨rfl, rfl⟩, rfl⟩,
          ⟨read, _, reported, _, ⟨hread, rfl⟩, ⟨_, _, _, _, ⟨rfl, rfl⟩, ⟨rfl, rfl, rfl⟩, rfl⟩,
            rfl⟩, rfl⟩, rfl⟩ := h
        have hread' := hreports _ _ _ hbefore.getters hread
        simpa using (hqualifier decl.annotations).trans hread'
    · exact absurd h (Work.not_reports_throw _)

variable {project : String} {asked : List ClassName} {ids : List (Id .contract)}
  {texts : List String}

theorem reported_readContracts {before after : ContractBook}
    (hbefore : ContractBook.Exact path hlayered project before)
    (h : ((asked.mapM (path.readContract project)).run before).Reports (ids, after) texts) :
    GetterTable.Reported path hlayered before.getters after.getters texts := by
  induction asked generalizing before ids texts with
  | nil =>
      rw [List.mapM_nil] at h
      obtain ⟨-, rfl, rfl⟩ := BookWork.reports_pure.1 h
      exact .refl
  | cons name names ih =>
      rw [List.mapM_cons] at h
      simp only [BookWork.reports_bind, BookWork.reports_pure] at h
      obtain ⟨id, between, _, _, hfirst, ⟨others, _, _, _, hrest, ⟨rfl, rfl, rfl⟩, rfl⟩, rfl⟩ := h
      have hbetween := ((path.exact_looks hlayered project name before hbefore).of_ok hfirst.1).1.1
      rw [List.append_nil]
      exact (reported_readContract hbefore hfirst).trans (ih hbetween.sound hrest)

theorem exact_readContracts (hlayered : path.Layered) {book : ContractBook}
    (h : ((asked.mapM (path.readContract project)).run ∅).Reports (ids, book) texts) :
    ContractBook.Exact path hlayered project book ∧
      (∀ name, name ∈ book.contracts.names ↔ name ∈ asked) ∧
        List.Forall₂ (fun name id => book.contracts.nameOf? id = some name) asked ids := by
  have hkept : ∀ (a b : ContractBook) (name : ClassName) (id : Id .contract), a.Extends b →
      a.contracts.nameOf? id = some name → b.contracts.nameOf? id = some name :=
    fun _ _ _ _ hextends => hextends.nameOf?
  have haccounts := Bookkeeping.Accounts.mapM hkept asked
    (fun name _ => path.exact_looks hlayered project name) (path.exact hlayered project).sound_empty
  obtain ⟨⟨hadvances, hids⟩, -⟩ := haccounts.of_ok h.1
  refine ⟨hadvances.sound, fun name => ?_, hids⟩
  rw [hadvances.mem_names_iff, Toll.mem_asked_sum]
  constructor
  · rintro (hempty | ⟨_, htoll, hname⟩)
    · exact absurd hempty List.not_mem_nil
    · obtain ⟨other, hother, rfl⟩ := List.mem_map.1 htoll
      rwa [Set.mem_singleton_iff.1 hname]
  · exact fun hname => .inr ⟨_, List.mem_map_of_mem hname, Set.mem_singleton name⟩

end ClassPath

/-! ## Answers -/

/-- The conflicts of the interfaces that the named contracts extend are reported, each once, and no
others. -/
def ClassPath.ConflictsReported (path : ClassPath) (asked : List ClassName) (texts : List String) :
    Prop :=
  ∃ conflicts : List Conflict,
    texts.filter (fun text => Conflict.IsText text) = conflicts.map Conflict.text ∧
      (conflicts.map Conflict.place).Nodup ∧
        ∀ conflict, conflict ∈ conflicts ↔
          (∃ name ∈ asked, ReflTransGen path.Inherits name conflict.interface) ∧
            conflict.Arises path

/-- The getters of the contracts that were asked for are those of the recursion over interfaces, and
the conflicts of all interfaces on the way are reported. -/
structure ContractBook.Answers (book : ContractBook) (path : ClassPath) (asked : List ClassName)
    (ids : List (Id .contract)) (texts : List String) : Prop where
  has_getters : List.Forall₂ (fun name id => ∃ contract, book.contracts.get? id = some contract ∧
    contract.name = name ∧ ∀ getters, path.HasGetters name getters ↔ getters = contract.getters)
      asked ids
  one_name : ∀ contract ∈ book.contracts.items, (contract.getters.map Getter.method).Nodup
  not_open : ∀ contract ∈ book.contracts.items, ∀ getter ∈ contract.getters,
    getter.injectee.key.type.isOpen = false
  conflicts : path.ConflictsReported asked texts

namespace ContractBook

variable {path : ClassPath} {hlayered : path.Layered} {project : String} {book : ContractBook}

theorem Exact.hasGetters (h : Exact path hlayered project book) {name : ClassName}
    {contract : Contract} (hcontract : book.contracts.named? name = some contract) :
    contract.name = name ∧ path.HasGetters name contract.getters := by
  have hname : name ∈ book.contracts.names := Table.mem_keys_of_find? hcontract
  have hmem := (h.mem_getters_iff name).2 ⟨name, hname, .refl⟩
  rw [h.contracts name contract hcontract]
  have hgetters : path.HasGetters name (path.offered hlayered name) :=
    ClassPath.hasGetters_offered (h.getters.legible hmem)
  exact ⟨rfl, hgetters⟩

theorem Exact.hasGetters_of_mem (h : Exact path hlayered project book) {contract : Contract}
    (hcontract : contract ∈ book.contracts.items) :
    path.HasGetters contract.name contract.getters := by
  obtain ⟨⟨name, held⟩, hentry, rfl⟩ := List.mem_map.1 hcontract
  obtain ⟨hname, hgetters⟩ := h.hasGetters (Table.find?_eq_some_iff.2 hentry)
  rwa [← hname] at hgetters

end ContractBook

namespace ClassPath

variable {path : ClassPath} {project : String} {asked : List ClassName}
  {ids : List (Id .contract)} {book : ContractBook} {texts : List String}

theorem conflictsReported_readContracts (hlayered : path.Layered)
    (h : ((asked.mapM (path.readContract project)).run ∅).Reports (ids, book) texts) :
    path.ConflictsReported asked texts := by
  obtain ⟨hexact, hnames, -⟩ := exact_readContracts hlayered h
  have hreported : GetterTable.Reported path hlayered ∅ book.getters texts :=
    reported_readContracts ContractBook.exact_empty h
  obtain ⟨entered, hkeys, htexts⟩ := hreported
  change book.getters.keys = [] ++ entered at hkeys
  rw [List.nil_append] at hkeys
  have hnodup : entered.Nodup := hkeys ▸ book.getters.distinct
  have hmem : ∀ name, name ∈ entered ↔ ∃ root ∈ asked, ReflTransGen path.Inherits root name := by
    intro name
    rw [← hkeys, hexact.mem_getters_iff]
    simp only [hnames]
  have hlegible : ∀ name ∈ entered, path.Legible name := by
    intro name hname
    rw [← hkeys] at hname
    exact hexact.getters.legible hname
  refine ⟨_, htexts, ?_, fun conflict => ?_⟩
  -- Each interface was entered once, and no two of its conflicts are about one thing.
  · rw [List.map_flatMap, List.nodup_flatMap]
    refine ⟨fun name _ => nodup_conflictsOf, hnodup.imp_of_mem fun hfirst hsecond hne => ?_⟩
    intro place hplace hother
    obtain ⟨conflict, hconflict, rfl⟩ := List.mem_map.1 hplace
    obtain ⟨other, hother, hsame⟩ := List.mem_map.1 hother
    have hinterface := congrArg Prod.fst hsame
    rw [Conflict.place, Conflict.place, ((mem_conflictsOf (hlegible _ hfirst)).1 hconflict).1,
      ((mem_conflictsOf (hlegible _ hsecond)).1 hother).1] at hinterface
    exact hne hinterface.symm
  · rw [List.mem_flatMap, ← hmem]
    constructor
    · rintro ⟨name, hname, hconflict⟩
      obtain ⟨rfl, harises⟩ := (mem_conflictsOf (hlegible name hname)).1 hconflict
      exact ⟨hname, harises⟩
    · rintro ⟨hname, harises⟩
      exact ⟨_, hname, (mem_conflictsOf (hlegible _ hname)).2 ⟨rfl, harises⟩⟩

/-- Where no interface extends itself, look-ups of contracts in any order answer with the getters of
the recursion. -/
theorem getters_by_recursion (hlayered : path.Layered)
    (h : ((asked.mapM (path.readContract project)).run ∅).Reports (ids, book) texts) :
    book.Answers path asked ids texts := by
  obtain ⟨hexact, -, hids⟩ := exact_readContracts hlayered h
  constructor
  case has_getters =>
    refine hids.imp fun name id hname => ?_
    obtain ⟨contract, hget, hcontract⟩ := Arena.exists_get?_of_nameOf? hname
    obtain ⟨hsame, hgetters⟩ := hexact.hasGetters hcontract
    refine ⟨contract, hget, hsame, fun getters => ⟨fun hhas => hhas.unique hgetters, ?_⟩⟩
    rintro rfl
    exact hgetters
  case one_name => exact fun contract hmem => (hexact.hasGetters_of_mem hmem).nodup_names
  case not_open => exact fun contract hmem => (hexact.hasGetters_of_mem hmem).isOpen
  case conflicts => exact conflictsReported_readContracts hlayered h

end ClassPath

/-! ## Conflicts of one interface -/

/-- No interface is reported twice for its own getters, nor for those that it inherits. -/
def Conflict.OncePerInterface (texts : List String) : Prop :=
  ∀ interface inherited, (texts.filter fun text =>
    (heading interface inherited).toList <+: text.toList).length ≤ 1

namespace Manor

def getter (name : String) (returns : ClassName) : MethodDecl :=
  { MethodDecl.emptyConstructor with name := name, returns := .ofClass returns }

def interface (name : ClassName) (parents : List ClassName) (methods : List MethodDecl) :
    ClassDecl :=
  { ClassDecl.ofInterface name with interfaces := parents, methods := methods }

def house : ClassDecl :=
  interface ⟨"inn/House"⟩ [] [getter "key" ⟨"inn/Key"⟩]

def hall : ClassDecl :=
  interface ⟨"inn/Hall"⟩ [house.name] [getter "lamp" ⟨"inn/Lamp"⟩]

def yard : ClassDecl :=
  interface ⟨"inn/Yard"⟩ [house.name] [getter "lamp" ⟨"inn/Lantern"⟩]

/-- The interface of a guest, with two getters for the room and two for the meal. -/
def guest : ClassDecl :=
  interface ⟨"inn/Guest"⟩ [hall.name, yard.name]
    [getter "room" ⟨"inn/Room"⟩, getter "room" ⟨"inn/Suite"⟩,
      getter "meal" ⟨"inn/Soup"⟩, getter "meal" ⟨"inn/Stew"⟩]

def path : ClassPath :=
  [house, hall, yard, guest].foldl ClassPath.addInput ∅

theorem layered : path.Layered :=
  ClassPath.layered_of_rank
    (fun name => [house.name, hall.name, yard.name, guest.name].idxOf name) (by decide +kernel)

def summary (asked : List ClassName) : Except Failure (List (List String)) :=
  ((asked.mapM (path.readContract "main")).run ∅).result.map fun ended =>
    ended.2.contracts.items.map fun contract => contract.getters.map Getter.method

def texts (asked : List ClassName) : List String :=
  faults ((asked.mapM (path.readContract "main")).run ∅).events

end Manor

namespace ClassPath

set_option maxRecDepth 100000 in
theorem getters_by_recursion_manor :
    ∃ ids book texts, Manor.path.Layered ∧
      (([Manor.guest.name, Manor.yard.name, Manor.guest.name].mapM
        (Manor.path.readContract "main")).run ∅).Reports (ids, book) texts ∧
        book.contracts.items.map (fun contract => contract.getters.map Getter.method) =
          [["key", "lamp", "room", "meal"], ["key", "lamp"]] ∧ texts.length = 3 ∧
          book.Answers Manor.path [Manor.guest.name, Manor.yard.name, Manor.guest.name] ids
            texts := by
  have hsummary : Manor.summary [Manor.guest.name, Manor.yard.name, Manor.guest.name] =
      .ok [["key", "lamp", "room", "meal"], ["key", "lamp"]] := by
    decide +kernel
  have htexts : (Manor.texts [Manor.guest.name, Manor.yard.name, Manor.guest.name]).length = 3 := by
    decide +kernel
  obtain ⟨⟨ids, book⟩, hresult, hgetters⟩ := exists_ok_of_map_eq_ok hsummary
  exact ⟨ids, book, _, Manor.layered, ⟨hresult, rfl⟩, hgetters, htexts,
    getters_by_recursion Manor.layered ⟨hresult, rfl⟩⟩

set_option maxRecDepth 100000 in
/-- The guest interface is reported for its rooms and for its meals. -/
theorem conflicts_of_one_interface :
    ∃ ids book texts, Manor.path.Layered ∧
      (([Manor.guest.name].mapM (Manor.path.readContract "main")).run ∅).Reports (ids, book) texts ∧
        ¬ Conflict.OncePerInterface texts := by
  have hsummary : Manor.summary [Manor.guest.name] = .ok [["key", "lamp", "room", "meal"]] := by
    decide +kernel
  have htwice : ((Manor.texts [Manor.guest.name]).filter fun text =>
      (Conflict.heading Manor.guest.name false).toList <+: text.toList).length = 2 := by
    decide +kernel
  obtain ⟨⟨ids, book⟩, hresult, -⟩ := exists_ok_of_map_eq_ok hsummary
  refine ⟨ids, book, _, Manor.layered, ⟨hresult, rfl⟩, fun honce => ?_⟩
  have hle := honce Manor.guest.name false
  change (List.filter _ (Manor.texts [Manor.guest.name])).length ≤ 1 at hle
  rw [htwice] at hle
  exact absurd hle (by decide)

end ClassPath

end InjectionCompiler
