import InjectionCompiler.Proofs.Delivery
import InjectionCompiler.Proofs.Paths
import InjectionCompiler.Sink.Memory

/-!
# Two sinks that agree

A directory sink replays its writes on a disk in order, and a memory sink replaces an artifact where
it stands.  Whatever is asked of both, behind every flush the files below the root are the committed
artifacts, each with its last content.
-/

namespace InjectionCompiler

/-! ## Entries put one after another -/

namespace Table

variable {κ α : Type} [DecidableEq κ]

def insertAll (table : Table κ α) (entries : List (κ × α)) : Table κ α :=
  entries.foldl (fun table entry => table.insert entry.1 entry.2) table

theorem insertAll_append (table : Table κ α) (entries others : List (κ × α)) :
    table.insertAll (entries ++ others) = (table.insertAll entries).insertAll others :=
  List.foldl_append

theorem find?_insertAll (table : Table κ α) (entries : List (κ × α)) (key : κ) :
    (table.insertAll entries).find? key = (entries.reverse.lookup key).or (table.find? key) := by
  induction entries using List.reverseRecOn with
  | nil => rfl
  | append_singleton entries entry ih =>
      have hentry : ∀ table : Table κ α, table.insertAll [entry] = table.insert entry.1 entry.2 :=
        fun _ => rfl
      rw [insertAll_append, hentry, find?_insert, ih, List.reverse_append, List.reverse_singleton,
        List.singleton_append]
      obtain ⟨first, item⟩ := entry
      by_cases h : key = first
      · simp [h]
      · simp [List.lookup_cons, beq_false_of_ne h, h]

theorem ofList_entries (table : Table κ α) : ofList table.entries = table := by
  obtain ⟨entries, hdistinct⟩ := table
  have h := entries_ofList hdistinct
  generalize ofList entries = made at h
  cases made
  cases h
  rfl

theorem lookup_reverse_entries (table : Table κ α) (key : κ) :
    table.entries.reverse.lookup key = table.find? key := by
  have h := find?_insertAll ∅ table.entries key
  rw [find?_empty, Option.or_none] at h
  exact h.symm.trans (congrArg (find? · key) table.ofList_entries)

end Table

theorem lookup_map_eq_some_iff {κ ν α : Type} [DecidableEq κ] [DecidableEq ν] {rename : κ → ν}
    {entries : List (κ × α)} {key : ν} {item : α}
    (hinjective : ∀ a ∈ entries, ∀ b ∈ entries, rename a.1 = rename b.1 → a.1 = b.1) :
    (entries.map fun entry => (rename entry.1, entry.2)).lookup key = some item ↔
      ∃ name, entries.lookup name = some item ∧ rename name = key := by
  induction entries with
  | nil => simp
  | cons entry rest ih =>
      obtain ⟨first, held⟩ := entry
      have hrest := ih fun a ha b hb =>
        hinjective a (List.mem_cons_of_mem _ ha) b (List.mem_cons_of_mem _ hb)
      by_cases hkey : key = rename first
      · subst hkey
        have honly : ∀ name, rest.lookup name = some item → rename name = rename first →
            name = first := fun name hname =>
          hinjective (name, item) (List.mem_cons_of_mem _ (mem_of_lookup hname)) (first, held)
            (List.mem_cons_self ..)
        constructor
        · intro h
          exact ⟨first, by simpa using h, rfl⟩
        · rintro ⟨name, hname, hsame⟩
          by_cases heq : name = first
          · simpa [heq] using hname
          · rw [List.lookup_cons, beq_false_of_ne heq] at hname
            exact absurd (honly name hname hsame) heq
      · rw [List.map_cons, List.lookup_cons, beq_false_of_ne hkey, hrest]
        refine exists_congr fun name => and_congr_left fun hname => ?_
        have hne : name ≠ first := fun heq => hkey (heq ▸ hname.symm)
        rw [List.lookup_cons, beq_false_of_ne hne]

/-! ## Disks -/

namespace Disk

theorem files_enter (disk : Disk) (made : Bool) (location : Location) (steps : List String) :
    (disk.enter made location steps).2.files = disk.files := by
  fun_induction disk.enter made location steps <;> first | rfl | assumption

theorem eq_walk_of_enter {disk : Disk} {made : Bool} {location place : Location}
    {steps : List String} (h : (disk.enter made location steps).1 = .ok place) :
    place = walk location steps := by
  fun_induction disk.enter made location steps with
  | case1 => exact (Except.ok.inj h).symm
  | case2 disk made location steps ih => rw [walk, if_pos rfl, ih h]
  | case3 disk made location step steps hdots inner hdirectory ih =>
      rw [walk, if_neg hdots, ih h]
  | case4 => cases h
  | case5 disk made location step steps hdots inner hdirectory hfile ih =>
      rw [walk, if_neg hdots, ih h]

theorem locate_eq_append {path last : String}
    (hlast : String.ofList ((segments path).getLast?.getD []) = last) (hempty : last ≠ "")
    (hdot : last ≠ ".") (hdots : last ≠ "..") :
    locate path = walk [] (steps path).dropLast ++ [last] := by
  obtain ⟨above, piece, hsegments⟩ : ∃ above piece, segments path = above ++ [piece] :=
    ⟨_, _, (List.dropLast_concat_getLast (List.splitOn_ne_nil '/' path.toList)).symm⟩
  have hpiece : piece = last.toList := by
    rw [← hlast, hsegments]
    simp
  have hsteps : steps path = leading above ++ [last] := by
    rw [steps_eq, hsegments, hpiece, leading_append, leading_cons hempty hdot]
    rfl
  rw [locate, hsteps, walk_append, List.dropLast_concat, walk, if_neg hdots, walk]

theorem files_put {disk : Disk} {path content : String} (h : (disk.put path content).1 = .ok ()) :
    (disk.put path content).2.files = disk.files.insert (locate path) content := by
  unfold put at h ⊢
  have hfiles := files_enter disk false [] (steps path).dropLast
  rcases henter : disk.enter false [] (steps path).dropLast with ⟨fault | location, entered⟩
  · rw [henter] at h
    cases h
  · have hlocation : location = walk [] (steps path).dropLast :=
      eq_walk_of_enter (congrArg Prod.fst henter)
    simp only [henter] at h hfiles ⊢
    split at h
    · cases h
    · next hlast =>
        simp only [not_or] at hlast
        split at h
        · cases h
        · next hdirectory =>
            rw [if_neg (by simpa using hlast), if_neg hdirectory, hlocation, hfiles,
              locate_eq_append rfl hlast.1 hlast.2.1 hlast.2.2]

theorem files_putAll {disk : Disk} {items : List (String × String)}
    (h : (disk.putAll items).1 = .ok ()) :
    (disk.putAll items).2.files =
      disk.files.insertAll (items.map fun item => (locate item.1, item.2)) := by
  induction items generalizing disk with
  | nil => rfl
  | cons item items ih =>
      obtain ⟨path, content⟩ := item
      have hput := @files_put disk path content
      unfold putAll at h ⊢
      rcases hwrite : disk.put path content with ⟨fault | ⟨⟩, written⟩
      · rw [hwrite] at h
        cases h
      · rw [hwrite] at h hput
        rw [ih h, hput rfl]
        rfl

end Disk

/-! ## Requests and their writes -/

namespace Request

def write? : Request → Option (ClassName × String)
  | .write name content => some (name, content)
  | .flush => none

theorem name?_of_write? {request : Request} {write : ClassName × String}
    (h : request.write? = some write) : write.1 ∈ request.name? := by
  cases request with
  | write name content => cases h; rfl
  | flush => cases h

/-- All writes that are asked for, in order. -/
def writes (requests : List Request) : List (ClassName × String) :=
  requests.filterMap write?

/-- The content that is written last under a name. -/
def lastContent? (requests : List Request) (name : ClassName) : Option String :=
  (writes requests).reverse.lookup name

end Request

/-- No request is answered with a failure. -/
def Sink.Succeeds {σ : Type} (sink : Sink σ) (state : σ) : List Request → Prop
  | [] => True
  | request :: later =>
      (sink.answer state request).1 = .ok () ∧ sink.Succeeds (sink.answer state request).2 later

theorem Sink.succeeds_append {σ : Type} {sink : Sink σ} {state : σ}
    {requests others : List Request} :
    sink.Succeeds state (requests ++ others) ↔
      sink.Succeeds state requests ∧ sink.Succeeds (sink.after state requests) others := by
  induction requests generalizing state with
  | nil => simp [Sink.Succeeds]
  | cons request requests ih =>
      rw [List.cons_append, Sink.Succeeds, Sink.Succeeds, ih, and_assoc]
      rfl

instance Sink.decidableSucceeds {σ : Type} (sink : Sink σ) (state : σ) (requests : List Request) :
    Decidable (sink.Succeeds state requests) :=
  match requests with
  | [] => inferInstanceAs (Decidable True)
  | request :: later =>
      have := sink.decidableSucceeds (sink.answer state request).2 later
      inferInstanceAs (Decidable (_ ∧ _))

/-- The writes that are flushed, and those that wait. -/
structure Backlog where
  flushed : List (ClassName × String)
  waiting : List (ClassName × String)

namespace Backlog

def add (backlog : Backlog) : Request → Backlog
  | .write name content => { backlog with waiting := backlog.waiting ++ [(name, content)] }
  | .flush => ⟨backlog.flushed ++ backlog.waiting, []⟩

def addAll (backlog : Backlog) (requests : List Request) : Backlog :=
  requests.foldl add backlog

/-- No write is lost, and none is moved. -/
theorem flushed_append_waiting (backlog : Backlog) (requests : List Request) :
    (backlog.addAll requests).flushed ++ (backlog.addAll requests).waiting =
      backlog.flushed ++ backlog.waiting ++ Request.writes requests := by
  induction requests generalizing backlog with
  | nil => simp [addAll, Request.writes]
  | cons request requests ih =>
      rw [addAll, List.foldl_cons, ← addAll, ih]
      cases request <;> simp [add, Request.writes, List.filterMap_cons, Request.write?]

theorem flushed_addAll_append_flush (backlog : Backlog) (requests : List Request) :
    (backlog.addAll (requests ++ [.flush])).flushed =
      backlog.flushed ++ backlog.waiting ++ Request.writes requests := by
  rw [← flushed_append_waiting, addAll, List.foldl_append]
  rfl

end Backlog

/-! ## What each sink holds -/

namespace DirectorySink

/-- The place and the content of a write. -/
def placed (sink : DirectorySink) (write : ClassName × String) : Location × String :=
  (Disk.locate (sink.pathOf write.1), write.2)

/-- The sink began as `start`, and the flushed writes are on the disk. -/
structure Holds (start : DirectorySink) (backlog : Backlog) (sink : DirectorySink) : Prop where
  root : sink.root = start.root
  extension : sink.extension = start.extension
  pending : sink.pending = backlog.waiting.map fun write => (start.pathOf write.1, write.2)
  files : sink.disk.files = start.disk.files.insertAll (backlog.flushed.map start.placed)

theorem Holds.pathOf_eq {start sink : DirectorySink} {backlog : Backlog}
    (h : start.Holds backlog sink) (name : ClassName) : sink.pathOf name = start.pathOf name := by
  rw [pathOf, pathOf, h.root, h.extension]

theorem Holds.add {start sink : DirectorySink} {backlog : Backlog} {request : Request}
    (h : start.Holds backlog sink) (hok : (operations.answer sink request).1 = .ok ()) :
    start.Holds (backlog.add request) (operations.answer sink request).2 := by
  cases request with
  | write name content =>
      refine ⟨h.root, h.extension, ?_, h.files⟩
      change sink.pending ++ [(sink.pathOf name, content)] = _
      simp [h.pending, h.pathOf_eq, Backlog.add]
  | flush =>
      have hput : (sink.disk.putAll sink.pending).1 = .ok () := by
        change (sink.disk.putAll sink.pending).1.mapError DiskFault.message = _ at hok
        rcases hresult : (sink.disk.putAll sink.pending).1 with fault | done
        · rw [hresult] at hok
          cases hok
        · rfl
      refine ⟨h.root, h.extension, rfl, ?_⟩
      change (sink.disk.putAll sink.pending).2.files = _
      rw [Disk.files_putAll hput, h.files, h.pending, Backlog.add, List.map_append,
        Table.insertAll_append, List.map_map]
      rfl

theorem Holds.addAll {start sink : DirectorySink} {backlog : Backlog} {requests : List Request}
    (h : start.Holds backlog sink) (hok : operations.Succeeds sink requests) :
    start.Holds (backlog.addAll requests) (operations.after sink requests) := by
  induction requests generalizing sink backlog with
  | nil => exact h
  | cons request requests ih => exact ih (h.add hok.1) hok.2

end DirectorySink

namespace MemorySink

/-- Under each name stands what was written last. -/
structure Holds (backlog : Backlog) (sink : MemorySink) : Prop where
  pending : ∀ name, sink.pending.find? name = backlog.waiting.reverse.lookup name
  committed : ∀ name, sink.committed.find? name = backlog.flushed.reverse.lookup name

theorem committed_flush (sink : MemorySink) :
    sink.flush.committed = sink.committed.insertAll sink.pending.entries := rfl

theorem Holds.add {sink : MemorySink} {backlog : Backlog} (h : Holds backlog sink)
    (request : Request) : Holds (backlog.add request) (operations.answer sink request).2 := by
  cases request with
  | write name content =>
      refine ⟨fun other => ?_, h.committed⟩
      change (sink.pending.insert name content).find? other = _
      rw [Table.find?_insert, h.pending, Backlog.add, List.reverse_append]
      by_cases heq : other = name
      · simp [heq]
      · simp [List.lookup_cons, beq_false_of_ne heq, heq]
  | flush =>
      refine ⟨fun name => rfl, fun name => ?_⟩
      change sink.flush.committed.find? name = _
      rw [committed_flush, Table.find?_insertAll, Table.lookup_reverse_entries, h.pending,
        h.committed, Backlog.add, List.reverse_append, List.lookup_append]

theorem Holds.addAll {sink : MemorySink} {backlog : Backlog} (h : Holds backlog sink)
    (requests : List Request) :
    Holds (backlog.addAll requests) (operations.after sink requests) := by
  induction requests generalizing sink backlog with
  | nil => exact h
  | cons request requests ih => exact ih (h.add request)

end MemorySink

/-! ## Agreement -/

namespace DirectorySink

/-- Nothing waits, and there is no file below the root. -/
structure Fresh (start : DirectorySink) : Prop where
  pending : start.pending = []
  files : ∀ place ∈ start.disk.files.keys, ¬ Disk.locate start.root <+: place

/-- The path of an artifact from the root on. -/
def relative (sink : DirectorySink) (name : ClassName) : String :=
  "/".intercalate ((Disk.locate (sink.pathOf name)).drop (Disk.locate sink.root).length)

/-- The files below the root are the artifacts that are committed. -/
structure Mirrors (sink : DirectorySink) (memory : MemorySink) : Prop where
  files : sink.files.Perm
    (memory.committed.entries.map fun entry => (sink.relative entry.1, entry.2))
  placed : ∀ place content, Disk.locate sink.root <+: place →
    (sink.disk.files.find? place = some content ↔
      ∃ name, memory.artifact? name = some content ∧ Disk.locate (sink.pathOf name) = place)

/-- Two sinks that are asked the same agree at all times, and keep still between flushes. -/
structure Agrees (start : DirectorySink) (requests : List Request) : Prop where
  mirrors : ∀ earlier later, requests = earlier ++ later →
    (operations.after start earlier).Mirrors (MemorySink.operations.after ∅ earlier)
  last : ∀ earlier later, requests = earlier ++ .flush :: later → ∀ name,
    (MemorySink.operations.after ∅ (earlier ++ [.flush])).artifact? name =
      Request.lastContent? earlier name
  still : ∀ earlier writes later, requests = earlier ++ writes ++ later → .flush ∉ writes →
    (operations.after start (earlier ++ writes)).disk = (operations.after start earlier).disk ∧
      (MemorySink.operations.after ∅ (earlier ++ writes)).committed =
        (MemorySink.operations.after ∅ earlier).committed
  distinct : Set.InjOn (fun name => Disk.locate (start.pathOf name)) {name | name.IsPlain}

theorem files_perm (sink : DirectorySink) :
    sink.files.Perm
      ((sink.disk.files.entries.filter fun entry => Disk.locate sink.root <+: entry.1).map
        fun entry =>
          ("/".intercalate (entry.1.drop (Disk.locate sink.root).length), entry.2)) := by
  refine (List.mergeSort_perm _ _).trans (.of_eq ?_)
  rw [← List.filterMap_eq_filter, List.map_filterMap]
  refine List.filterMap_congr fun entry _ => ?_
  by_cases h : Disk.locate sink.root <+: entry.1 <;> simp [h, Option.guard]

theorem Mirrors.of_placed {sink : DirectorySink} {memory : MemorySink}
    (hdescends : Disk.Descends sink.descent)
    (hplain : ∀ name content, memory.artifact? name = some content → name.IsPlain)
    (hplaced : ∀ place content, Disk.locate sink.root <+: place →
      (sink.disk.files.find? place = some content ↔
        ∃ name, memory.artifact? name = some content ∧ Disk.locate (sink.pathOf name) = place)) :
    sink.Mirrors memory := by
  refine ⟨?_, hplaced⟩
  have hnames : ∀ entry ∈ memory.committed.entries, entry.1.IsPlain := fun entry hentry =>
    hplain entry.1 entry.2 (Table.find?_eq_some_iff.2 hentry)
  -- Neither side has a path twice, so it is enough that they have the same files.
  have hbelow : (sink.disk.files.entries.filter fun entry =>
      Disk.locate sink.root <+: entry.1).Perm
        (memory.committed.entries.map fun entry =>
          (Disk.locate (sink.pathOf entry.1), entry.2)) := by
    refine (List.perm_ext_iff_of_nodup ?_ ?_).2 ?_
    · exact (List.Nodup.of_map _ sink.disk.files.distinct).filter _
    · refine List.Nodup.map_on (fun a ha b hb h => ?_)
        (List.Nodup.of_map _ memory.committed.distinct)
      obtain ⟨hplace, hcontent⟩ := Prod.mk.inj h
      exact Prod.ext (injOn_locate_pathOf hdescends (hnames a ha) (hnames b hb) hplace) hcontent
    · rintro ⟨place, content⟩
      simp only [List.mem_filter, decide_eq_true_eq, List.mem_map, Prod.mk.injEq, Prod.exists]
      rw [← Table.find?_eq_some_iff]
      constructor
      · rintro ⟨hfile, hroot⟩
        obtain ⟨name, hname, hsame⟩ := (hplaced place content hroot).1 hfile
        exact ⟨name, content, Table.find?_eq_some_iff.1 hname, hsame, rfl⟩
      · rintro ⟨name, item, hentry, rfl, rfl⟩
        have hroot := locate_root_prefix_locate_pathOf hdescends (hnames _ hentry)
        exact ⟨(hplaced _ _ hroot).2 ⟨name, Table.find?_eq_some_iff.2 hentry, rfl⟩, hroot⟩
  refine sink.files_perm.trans ((hbelow.map _).trans (.of_eq ?_))
  simp [relative]

/-- Behind any requests, the files below the root are the committed artifacts. -/
theorem mirrors_after {start : DirectorySink} {requests : List Request} (hfresh : start.Fresh)
    (hdescends : Disk.Descends start.descent)
    (hplain : ∀ request ∈ requests, ∀ name ∈ request.name?, name.IsPlain)
    (hsucceeds : operations.Succeeds start requests) :
    (operations.after start requests).Mirrors (MemorySink.operations.after ∅ requests) := by
  have hdirectory : start.Holds (Backlog.addAll ⟨[], []⟩ requests)
      (operations.after start requests) :=
    Holds.addAll ⟨rfl, rfl, hfresh.pending, rfl⟩ hsucceeds
  have hmemory : MemorySink.Holds (Backlog.addAll ⟨[], []⟩ requests)
      (MemorySink.operations.after ∅ requests) :=
    MemorySink.Holds.addAll ⟨fun _ => rfl, fun _ => rfl⟩ requests
  have hwrites := Backlog.flushed_append_waiting ⟨[], []⟩ requests
  -- Both sinks hold what was flushed of one and the same backlog.
  generalize Backlog.addAll ⟨[], []⟩ requests = backlog at hdirectory hmemory hwrites
  have hnames : ∀ write ∈ backlog.flushed, write.1.IsPlain := by
    intro write hwrite
    have hmem : write ∈ Request.writes requests := by
      have h := List.mem_append_left backlog.waiting hwrite
      rwa [hwrites] at h
    obtain ⟨request, hrequest, hwritten⟩ := List.mem_filterMap.1 hmem
    exact hplain request hrequest write.1 (Request.name?_of_write? hwritten)
  have hdescent : (operations.after start requests).descent = start.descent := by
    rw [descent, descent, hdirectory.extension]
  refine Mirrors.of_placed (by rwa [hdescent]) (fun name content hname => ?_)
    fun place content hroot => ?_
  · rw [MemorySink.artifact?, hmemory.committed] at hname
    exact hnames _ (List.mem_reverse.1 (mem_of_lookup hname))
  · rw [hdirectory.root] at hroot
    -- No file that was there before is below the root.
    have hnone : start.disk.files.find? place = none := by
      rw [← Option.not_isSome_iff_eq_none, Table.find?_isSome_iff]
      exact fun hmem => hfresh.files place hmem hroot
    rw [hdirectory.files, Table.find?_insertAll, hnone, Option.or_none, ← List.map_reverse]
    have hlookup := @lookup_map_eq_some_iff ClassName Location String _ _
      (fun name => Disk.locate (start.pathOf name)) backlog.flushed.reverse place content
      fun a ha b hb h => injOn_locate_pathOf hdescends (hnames a (List.mem_reverse.1 ha))
        (hnames b (List.mem_reverse.1 hb)) h
    simp only [MemorySink.artifact?, hmemory.committed, hdirectory.pathOf_eq]
    exact hlookup

theorem after_of_not_mem {writes : List Request} (h : .flush ∉ writes) (sink : DirectorySink)
    (memory : MemorySink) :
    (operations.after sink writes).disk = sink.disk ∧
      (MemorySink.operations.after memory writes).committed = memory.committed := by
  induction writes generalizing sink memory with
  | nil => exact ⟨rfl, rfl⟩
  | cons request writes ih =>
      obtain ⟨hrequest, hwrites⟩ := not_or.1 (mt List.mem_cons.2 h)
      cases request with
      | write name content => exact ih hwrites (sink.write name content) (memory.write name content)
      | flush => exact absurd rfl hrequest

theorem agrees_with_memory {start : DirectorySink} {requests : List Request} (hfresh : start.Fresh)
    (hdescends : Disk.Descends start.descent)
    (hplain : ∀ request ∈ requests, ∀ name ∈ request.name?, name.IsPlain)
    (hsucceeds : operations.Succeeds start requests) : start.Agrees requests where
  mirrors := by
    rintro earlier later rfl
    exact mirrors_after hfresh hdescends
      (fun request hrequest => hplain request (List.mem_append_left _ hrequest))
      (Sink.succeeds_append.1 hsucceeds).1
  last := by
    rintro earlier later rfl name
    have hmemory : MemorySink.Holds (Backlog.addAll ⟨[], []⟩ (earlier ++ [.flush]))
        (MemorySink.operations.after ∅ (earlier ++ [.flush])) :=
      MemorySink.Holds.addAll ⟨fun _ => rfl, fun _ => rfl⟩ _
    rw [MemorySink.artifact?, hmemory.committed, Backlog.flushed_addAll_append_flush]
    rfl
  still := by
    rintro earlier writes later rfl hwrites
    rw [Sink.after_append, Sink.after_append]
    exact after_of_not_mem hwrites _ _
  distinct := injOn_locate_pathOf hdescends

def ledger : List Request :=
  [.write ⟨"app/Order"⟩ "1", .flush, .write ⟨"app/Order"⟩ "2", .write ⟨"Main"⟩ "3", .flush]

def desk : DirectorySink :=
  { below "work/out" defaultExtension with
    disk := ⟨[["work"]], .ofList [(["work", "notes"], "4")]⟩ }

theorem agrees_with_memory_desk : desk.Fresh ∧ Disk.Descends desk.descent ∧
    (∀ request ∈ ledger, ∀ name ∈ request.name?, name.IsPlain) ∧
    operations.Succeeds desk ledger ∧ desk.Agrees ledger := by
  have hfresh : desk.Fresh := ⟨rfl, by decide +kernel⟩
  have hdescends : Disk.Descends desk.descent := Disk.descends_of_not_mem (by decide +kernel)
  have hplain : ∀ request ∈ ledger, ∀ name ∈ request.name?, name.IsPlain := by decide +kernel
  have hsucceeds : operations.Succeeds desk ledger := by decide +kernel
  exact ⟨hfresh, hdescends, hplain, hsucceeds, agrees_with_memory hfresh hdescends hplain hsucceeds⟩

/-- A sink whose extension leads back out of the directory that it opens. -/
def climbing : DirectorySink :=
  below "out" "x/../y"

def twoNames : List Request :=
  [.write ⟨"A"⟩ "1", .write ⟨"B"⟩ "2", .flush]

/-- Where the extension climbs, all artifacts of a package share one file. -/
theorem not_agrees_climbing : climbing.Fresh ∧
    (∀ request ∈ twoNames, ∀ name ∈ request.name?, name.IsPlain) ∧
    operations.Succeeds climbing twoNames ∧ ¬ climbing.Agrees twoNames := by
  refine ⟨⟨rfl, by decide +kernel⟩, by decide +kernel, by decide +kernel, fun h => ?_⟩
  have hmirrors := h.mirrors twoNames [] rfl
  have hfirst := (hmirrors.placed ["out", "y"] "1" (by decide +kernel)).2
    ⟨⟨"A"⟩, by decide +kernel, by decide +kernel⟩
  have hlast : (operations.after climbing twoNames).disk.files.find? ["out", "y"] = some "2" := by
    decide +kernel
  exact absurd (hfirst.symm.trans hlast) (by decide)

end DirectorySink

end InjectionCompiler
