import InjectionCompiler.Proofs.Storage

/-!
# Flushes that fail

A flush takes the waiting artifacts one by one and stops at the first that cannot be written.  Those
before it are on the disk.  That one and those behind it are neither on the disk nor waiting any
more, and no later flush brings them back.
-/

namespace InjectionCompiler

namespace Disk

/-! ## Reading a path -/

/-- Walks as `enter` does, but makes no directory. -/
def follow (disk : Disk) (location : Location) : List String → Option Location
  | [] => some location
  | step :: steps =>
      if step = ".." then disk.follow location.dropLast steps
      else if disk.isDirectory (location ++ [step]) then disk.follow (location ++ [step]) steps
      else none

/-- The content of the file that a path leads to. -/
def fileAt? (disk : Disk) (path : String) : Option String :=
  match disk.follow [] (steps path).dropLast with
  | none => none
  | some location =>
      let last := String.ofList ((segments path).getLast?.getD [])
      if last = "" ∨ last = "." ∨ last = ".." then none
      else disk.files.find? (location ++ [last])

theorem isDirectory_enter {disk : Disk} {place : Location} (h : disk.isDirectory place)
    (made : Bool) (location : Location) (steps : List String) :
    (disk.enter made location steps).2.isDirectory place := by
  fun_induction disk.enter made location steps with
  | case1 => exact h
  | case2 _ _ _ _ ih => exact ih h
  | case3 _ _ _ _ _ _ _ _ ih => exact ih h
  | case4 => exact h
  | case5 disk made location step steps _ inner _ _ ih =>
      apply ih
      simp only [isDirectory, List.contains_append, Bool.or_eq_true] at h ⊢
      tauto

theorem follow_enter (disk : Disk) (made : Bool) (location : Location) (steps : List String) :
    (disk.enter made location steps).2.follow location steps =
      (disk.enter made location steps).1.toOption := by
  fun_induction disk.enter made location steps with
  | case1 => rfl
  | case2 disk made location steps ih =>
      rw [follow, if_pos rfl]
      exact ih
  | case3 disk made location step steps hdots inner hdirectory ih =>
      rw [follow, if_neg hdots, if_pos (isDirectory_enter hdirectory _ _ _)]
      exact ih
  | case4 disk made location step steps hdots inner hdirectory hfile =>
      rw [follow, if_neg hdots, if_neg hdirectory]
      rfl
  | case5 disk made location step steps hdots inner hdirectory hfile ih =>
      have hmade : { disk with directories := disk.directories ++ [inner] }.isDirectory inner := by
        simp [isDirectory]
      rw [follow, if_neg hdots, if_pos (isDirectory_enter hmade _ _ _)]
      exact ih

theorem isDirectory_congr {disk other : Disk} (h : disk.directories = other.directories)
    (place : Location) : disk.isDirectory place = other.isDirectory place := by
  rw [isDirectory, isDirectory, h]

theorem follow_congr {disk other : Disk} (h : disk.directories = other.directories)
    (location : Location) (steps : List String) :
    disk.follow location steps = other.follow location steps := by
  induction steps generalizing location with
  | nil => rfl
  | cons step steps ih => rw [follow, follow, isDirectory_congr h, ih, ih]

/-! ## Sound disks -/

/-- No place holds a directory and a file. -/
def Sound (disk : Disk) : Prop :=
  ∀ place, disk.isDirectory place → disk.files.find? place = none

theorem sound_enter {disk : Disk} (h : disk.Sound) (made : Bool) (location : Location)
    (steps : List String) : (disk.enter made location steps).2.Sound := by
  fun_induction disk.enter made location steps with
  | case1 => exact h
  | case2 _ _ _ _ ih => exact ih h
  | case3 _ _ _ _ _ _ _ _ ih => exact ih h
  | case4 => exact h
  | case5 disk made location step steps _ inner _ hfile ih =>
      apply ih
      intro place hplace
      have hold : disk.isDirectory place ∨ place = inner := by
        simp only [isDirectory, List.contains_append, Bool.or_eq_true] at hplace ⊢
        rcases hplace with hempty | hknown | hnew
        · exact .inl (.inl hempty)
        · exact .inl (.inr hknown)
        · exact .inr (by simpa using hnew)
      rcases hold with hdirectory | rfl
      · exact h place hdirectory
      · simpa [Table.contains, ← Table.find?_isSome_iff] using hfile

/-- A write fails on the way to the directory or at the file itself, and leaves no file at the path;
or it puts the content where the path leads. -/
theorem put_cases (disk : Disk) (path content : String) :
    ∃ entered, (disk.enter false [] (steps path).dropLast).2 = entered ∧
      ((∃ fault, disk.put path content = (.error fault, entered) ∧
          (entered.Sound → entered.fileAt? path = none)) ∨
        ∃ target, disk.put path content =
            (.ok (), { entered with files := entered.files.insert target content }) ∧
          ¬ entered.isDirectory target ∧
          ∀ other : Disk, other.directories = entered.directories →
            other.fileAt? path = other.files.find? target) := by
  have hfollow := disk.follow_enter false [] (steps path).dropLast
  unfold put fileAt?
  -- The way to the directory, then the last segment, then what stands there already.
  rcases henter : disk.enter false [] (steps path).dropLast with ⟨fault | location, entered⟩
  · rw [henter] at hfollow
    refine ⟨entered, rfl, .inl ⟨fault, rfl, fun _ => ?_⟩⟩
    simp only [hfollow, Except.toOption]
  · rw [henter] at hfollow
    refine ⟨entered, rfl, ?_⟩
    simp only [hfollow, Except.toOption]
    by_cases hlast : String.ofList ((segments path).getLast?.getD []) = "" ∨
        String.ofList ((segments path).getLast?.getD []) = "." ∨
          String.ofList ((segments path).getLast?.getD []) = ".."
    · left
      exact ⟨_, by rw [if_pos hlast], fun _ => if_pos hlast⟩
    · rw [if_neg hlast]
      by_cases hdirectory :
          entered.isDirectory (location ++ [String.ofList ((segments path).getLast?.getD [])])
      · left
        refine ⟨.isDirectory, by rw [if_pos hdirectory], fun hsound => ?_⟩
        exact (if_neg hlast).trans (hsound _ hdirectory)
      · right
        refine ⟨_, by rw [if_neg hdirectory], hdirectory, fun other hother => ?_⟩
        simp only [follow_congr hother, hfollow, Except.toOption]
        exact if_neg hlast

theorem sound_put {disk : Disk} (h : disk.Sound) (path content : String) :
    (disk.put path content).2.Sound := by
  have hentered := sound_enter h false [] (steps path).dropLast
  obtain ⟨entered, hsame, ⟨fault, hput, -⟩ | ⟨target, hput, hdirectory, -⟩⟩ :=
    disk.put_cases path content
  · rw [hput]
    rwa [hsame] at hentered
  · rw [hput]
    rw [hsame] at hentered
    intro place hplace
    have hknown : entered.isDirectory place = true := (isDirectory_congr rfl place).trans hplace
    rw [Table.find?_insert, if_neg]
    · exact hentered place hknown
    · rintro rfl
      exact hdirectory hknown

theorem fileAt?_put {disk : Disk} (h : disk.Sound) (path content : String) :
    (disk.put path content).2.fileAt? path =
      (disk.put path content).1.toOption.map fun _ => content := by
  have hentered := sound_enter h false [] (steps path).dropLast
  obtain ⟨entered, rfl, ⟨fault, hput, hnone⟩ | ⟨target, hput, -, hread⟩⟩ :=
    disk.put_cases path content
  · rw [hput]
    exact hnone hentered
  · rw [hput]
    simp [hread, Table.find?_insert, Except.toOption]

theorem files_put_of_error {disk : Disk} {path content : String} {fault : DiskFault}
    (h : (disk.put path content).1 = .error fault) :
    (disk.put path content).2.files = disk.files := by
  obtain ⟨entered, rfl, ⟨_, hput, -⟩ | ⟨target, hput, -, -⟩⟩ := disk.put_cases path content
  · rw [hput]
    exact disk.files_enter false [] (steps path).dropLast
  · rw [hput] at h
    cases h

theorem sound_putAll {disk : Disk} (h : disk.Sound) (items : List (String × String)) :
    (disk.putAll items).2.Sound := by
  induction items generalizing disk with
  | nil => exact h
  | cons item items ih =>
      obtain ⟨path, content⟩ := item
      have hput := sound_put h path content
      unfold putAll
      rcases hwrite : disk.put path content with ⟨fault | ⟨⟩, written⟩
      · rw [hwrite] at hput
        exact hput
      · rw [hwrite] at hput
        exact ih hput

theorem exists_of_putAll_error {disk : Disk} {items : List (String × String)} {fault : DiskFault}
    (h : (disk.putAll items).1 = .error fault) :
    ∃ stored path content others, items = stored ++ (path, content) :: others ∧
      (disk.putAll stored).1 = .ok () ∧
      (disk.putAll items) = (disk.putAll stored).2.put path content := by
  induction items generalizing disk with
  | nil => cases h
  | cons item items ih =>
      obtain ⟨path, content⟩ := item
      rw [putAll] at h
      rcases hput : disk.put path content with ⟨reason | ⟨⟩, written⟩
      · refine ⟨[], path, content, items, rfl, rfl, ?_⟩
        simp only [putAll, hput]
      · rw [hput] at h
        obtain ⟨stored, other, text, others, rfl, hstored, hfailed⟩ := ih h
        refine ⟨(path, content) :: stored, other, text, others, rfl, ?_, ?_⟩
        · simp only [putAll, hput]
          exact hstored
        · simp only [putAll, hput]
          exact hfailed

end Disk

/-! ## What waits -/

namespace Request

/-- The writes behind the last flush, whether it failed or not. -/
def unflushed (requests : List Request) : List (ClassName × String) :=
  (Backlog.addAll ⟨[], []⟩ requests).waiting

theorem mem_writes_of_mem_unflushed {requests : List Request} {write : ClassName × String}
    (h : write ∈ unflushed requests) : write ∈ writes requests := by
  have hmem := List.mem_append_right (Backlog.addAll ⟨[], []⟩ requests).flushed h
  rw [unflushed, Backlog.flushed_append_waiting] at hmem
  simpa using hmem

theorem exists_lastContent?_of_mem {requests : List Request} {write : ClassName × String}
    (h : write ∈ writes requests) : ∃ content, lastContent? requests write.1 = some content := by
  apply Option.ne_none_iff_exists'.1
  intro hnone
  have hkey := List.lookup_eq_none_iff.1 hnone write (List.mem_reverse.2 h)
  simp at hkey

end Request

namespace DirectorySink

/-- The sink began as `start`, and its disk is sound; how its flushes went plays no part. -/
structure Waits (start : DirectorySink) (backlog : Backlog) (sink : DirectorySink) : Prop where
  root : sink.root = start.root
  extension : sink.extension = start.extension
  pending : sink.pending = backlog.waiting.map fun write => (start.pathOf write.1, write.2)
  sound : sink.disk.Sound

theorem Waits.pathOf_eq {start sink : DirectorySink} {backlog : Backlog}
    (h : start.Waits backlog sink) (name : ClassName) : sink.pathOf name = start.pathOf name := by
  rw [pathOf, pathOf, h.root, h.extension]

theorem Waits.add {start sink : DirectorySink} {backlog : Backlog} (h : start.Waits backlog sink)
    (request : Request) :
    start.Waits (backlog.add request) (operations.answer sink request).2 := by
  cases request with
  | write name content =>
      refine ⟨h.root, h.extension, ?_, h.sound⟩
      change sink.pending ++ [(sink.pathOf name, content)] = _
      simp [h.pending, h.pathOf_eq, Backlog.add]
  | flush => exact ⟨h.root, h.extension, rfl, Disk.sound_putAll h.sound sink.pending⟩

theorem Waits.addAll {start sink : DirectorySink} {backlog : Backlog}
    (h : start.Waits backlog sink) (requests : List Request) :
    start.Waits (backlog.addAll requests) (operations.after sink requests) := by
  induction requests generalizing sink backlog with
  | nil => exact h
  | cons request requests ih => exact ih (h.add request)

/-! ## What a failing flush leaves -/

/-- Every artifact is on the disk or waits, with the content that was written last. -/
def LosesNothing (start : DirectorySink) (requests : List Request) : Prop :=
  ∀ name content, Request.lastContent? requests name = some content →
    (operations.after start requests).disk.fileAt? (start.pathOf name) = some content ∨
      (start.pathOf name, content) ∈ (operations.after start requests).pending

/-- A flush behind `requests` fails at one of the waiting artifacts. -/
structure FailsAt (start : DirectorySink) (requests : List Request)
    (stored : List (ClassName × String)) (failed : ClassName × String)
    (forgotten : List (ClassName × String)) : Prop where
  unflushed : Request.unflushed requests = stored ++ failed :: forgotten
  /-- The files are those that were there, and the artifacts before the one that failed. -/
  files : (operations.after start (requests ++ [.flush])).disk.files =
    (operations.after start requests).disk.files.insertAll (stored.map start.placed)
  missing : (operations.after start (requests ++ [.flush])).disk.fileAt?
    (start.pathOf failed.1) = none
  pending : (operations.after start (requests ++ [.flush])).pending = []
  /-- The next flush goes well and writes nothing, whatever became of the disk. -/
  silent : ∀ disk, flush { operations.after start (requests ++ [.flush]) with disk := disk } =
    (.ok (), { operations.after start (requests ++ [.flush]) with disk := disk })

variable {start : DirectorySink} {requests : List Request}

theorem after_concat_flush (start : DirectorySink) (requests : List Request) :
    operations.after start (requests ++ [.flush]) = (operations.after start requests).flush.2 := by
  rw [Sink.after_append]
  rfl

theorem pending_after_flush (start : DirectorySink) (requests : List Request) :
    (operations.after start (requests ++ [.flush])).pending = [] := by
  rw [after_concat_flush]
  rfl

theorem flush_of_pending_eq_nil {sink : DirectorySink} (h : sink.pending = []) :
    sink.flush = (.ok (), sink) := by
  obtain ⟨root, extension, pending, disk⟩ := sink
  change pending = [] at h
  subst h
  rfl

theorem exists_putAll_error {sink : DirectorySink} {reason : String}
    (h : (operations.answer sink .flush).1 = .error reason) :
    ∃ fault, (sink.disk.putAll sink.pending).1 = .error fault := by
  change (sink.disk.putAll sink.pending).1.mapError DiskFault.message = _ at h
  rcases hresult : (sink.disk.putAll sink.pending).1 with fault | done
  · exact ⟨fault, rfl⟩
  · rw [hresult] at h
    cases h

theorem exists_failsAt (hempty : start.pending = []) (hsound : start.disk.Sound) {reason : String}
    (hfails : (operations.answer (operations.after start requests) .flush).1 = .error reason) :
    ∃ stored failed forgotten, start.FailsAt requests stored failed forgotten := by
  have hwaits : start.Waits (Backlog.addAll ⟨[], []⟩ requests) (operations.after start requests) :=
    Waits.addAll ⟨rfl, rfl, hempty, hsound⟩ requests
  obtain ⟨fault, hfault⟩ := exists_putAll_error hfails
  obtain ⟨items, path, content, others, hsplit, hstored, hput⟩ :=
    Disk.exists_of_putAll_error hfault
  rw [hput] at hfault
  have hpending := hwaits.pending.symm.trans hsplit
  -- The paths were made of the names one by one, so that the split of the paths is one of the
  -- names.
  obtain ⟨stored, rest, hwaiting, rfl, hrest⟩ := List.map_eq_append_iff.1 hpending
  obtain ⟨failed, forgotten, rfl, hfailed, -⟩ := List.map_eq_cons_iff.1 hrest
  obtain ⟨rfl, rfl⟩ := Prod.mk.inj hfailed
  have hstoredSound := Disk.sound_putAll hwaits.sound
    (stored.map fun write => (start.pathOf write.1, write.2))
  have hdisk : (operations.after start (requests ++ [.flush])).disk =
      (((operations.after start requests).disk.putAll
        (stored.map fun write => (start.pathOf write.1, write.2))).2.put
          (start.pathOf failed.1) failed.2).2 := by
    rw [after_concat_flush, ← hput]
    rfl
  have hpendingAfter := pending_after_flush start requests
  refine ⟨stored, failed, forgotten, hwaiting, ?_, ?_, hpendingAfter, ?_⟩
  · have hplaced : ((fun item : String × String => (Disk.locate item.1, item.2)) ∘
        fun write : ClassName × String => (start.pathOf write.1, write.2)) = start.placed := by
      funext write
      simp only [Function.comp_apply, placed]
    rw [hdisk, Disk.files_put_of_error hfault, Disk.files_putAll hstored, List.map_map, hplaced]
  · rw [hdisk, Disk.fileAt?_put hstoredSound, hfault]
    rfl
  · intro disk
    exact flush_of_pending_eq_nil hpendingAfter

theorem FailsAt.not_losesNothing {stored forgotten : List (ClassName × String)}
    {failed : ClassName × String} (h : start.FailsAt requests stored failed forgotten) :
    ¬ start.LosesNothing (requests ++ [.flush]) := by
  intro hkeeps
  have hunflushed : failed ∈ Request.unflushed requests := by simp [h.unflushed]
  have hwritten : failed ∈ Request.writes (requests ++ [.flush]) := by
    rw [Request.writes, List.filterMap_append]
    exact List.mem_append_left _ (Request.mem_writes_of_mem_unflushed hunflushed)
  obtain ⟨content, hcontent⟩ := Request.exists_lastContent?_of_mem hwritten
  rcases hkeeps failed.1 content hcontent with hdisk | hwaiting
  · rw [h.missing] at hdisk
    cases hdisk
  · rw [h.pending] at hwaiting
    cases hwaiting

theorem failed_flush_forgets (hempty : start.pending = []) (hsound : start.disk.Sound)
    {reason : String}
    (hfails : (operations.answer (operations.after start requests) .flush).1 = .error reason) :
    (∃ stored failed forgotten, start.FailsAt requests stored failed forgotten) ∧
      ¬ start.LosesNothing (requests ++ [.flush]) := by
  obtain ⟨stored, failed, forgotten, hat⟩ := exists_failsAt hempty hsound hfails
  exact ⟨⟨stored, failed, forgotten, hat⟩, hat.not_losesNothing⟩

def shelf : DirectorySink :=
  below "out" defaultExtension

/-- The file of the first artifact stands where the third one needs a directory. -/
def blocked : List Request :=
  [.write ⟨"A"⟩ "1", .flush, .write ⟨"B"⟩ "2", .write ⟨"A.json/C"⟩ "3", .write ⟨"D"⟩ "4"]

theorem failed_flush_forgets_shelf : shelf.pending = [] ∧ shelf.disk.Sound ∧
    (operations.answer (operations.after shelf blocked) .flush).1 =
      .error DiskFault.exists.message ∧
    (∃ stored failed forgotten, shelf.FailsAt blocked stored failed forgotten) ∧
    ¬ shelf.LosesNothing (blocked ++ [.flush]) := by
  have hsound : shelf.disk.Sound := fun place _ => Table.find?_empty place
  have hfails : (operations.answer (operations.after shelf blocked) .flush).1 =
      .error DiskFault.exists.message := by decide +kernel
  exact ⟨rfl, hsound, hfails, failed_flush_forgets rfl hsound hfails⟩

/-- The last artifact could have been written, and is on the disk not even when the next flush has
gone well. -/
theorem forgotten_shelf :
    (operations.answer (operations.after shelf (blocked ++ [.flush])) .flush).1 = .ok () ∧
    (operations.after shelf (blocked ++ [.flush, .flush])).disk.fileAt?
      (shelf.pathOf ⟨"D"⟩) = none ∧
    ¬ shelf.LosesNothing (blocked ++ [.flush]) := by
  refine ⟨by decide +kernel, by decide +kernel, fun hkeeps => ?_⟩
  have hlast : Request.lastContent? (blocked ++ [.flush]) ⟨"D"⟩ = some "4" := by decide +kernel
  have hnone : (operations.after shelf (blocked ++ [.flush])).disk.fileAt?
      (shelf.pathOf ⟨"D"⟩) = none := by decide +kernel
  rcases hkeeps _ _ hlast with hdisk | hwaiting
  · rw [hnone] at hdisk
    cases hdisk
  · rw [pending_after_flush] at hwaiting
    cases hwaiting

end DirectorySink

end InjectionCompiler
