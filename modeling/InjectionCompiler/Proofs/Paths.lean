import InjectionCompiler.Sink.Directory
import Mathlib.Data.List.Basic
import Mathlib.Data.Set.Operations

/-!
# Paths of artifacts

A path stands for the place that its steps lead to.  The segments of a plain name are steps down, so
different plain names have files of their own below the root; the extension must not lead back up
from them.
-/

namespace InjectionCompiler

/-! ## Segments and steps -/

theorem not_mem_of_mem_splitOn {separator : Char} {text piece : List Char}
    (h : piece ∈ text.splitOn separator) : separator ∉ piece := by
  induction text generalizing piece with
  | nil =>
      rw [List.splitOn_nil, List.mem_singleton] at h
      simp [h]
  | cons first rest ih =>
      rw [List.splitOn_cons_eq_if_modifyHead] at h
      obtain ⟨head, others, hrest⟩ :=
        List.exists_cons_of_ne_nil (List.splitOn_ne_nil separator rest)
      rw [hrest] at h ih
      split at h
      · rcases List.mem_cons.1 h with rfl | hpiece
        · exact List.not_mem_nil
        · exact ih hpiece
      · next hfirst =>
          rcases List.mem_cons.1 h with rfl | hpiece
          · have hhead : separator ∉ head := ih (List.mem_cons_self ..)
            simpa [hhead] using fun heq => hfirst (by simp [heq])
          · exact ih (List.mem_cons_of_mem _ hpiece)

namespace Disk

theorem segments_eq (path : String) : segments path = path.toList.splitOn '/' := rfl

theorem segments_append_slash (path rest : String) :
    segments (path ++ "/" ++ rest) = segments path ++ segments rest := by
  simp [segments_eq, List.splitOn_append_cons_self]

theorem segments_append {text : String} (h : '/' ∉ text.toList) (rest : String) :
    segments (text ++ rest) = (segments rest).modifyHead (text.toList ++ ·) := by
  rw [segments_eq, String.toList_append, segments_eq]
  generalize text.toList = first at h
  induction first with
  | nil => exact (congrFun List.modifyHead_id _).symm
  | cons letter first ih =>
      obtain ⟨hletter, hfirst⟩ := not_or.1 (mt List.mem_cons.2 h)
      simp [List.splitOn_cons_eq_if_modifyHead, Ne.symm hletter, ih hfirst, Function.comp_def]

/-- The segments that lead somewhere. -/
def leading (segments : List (List Char)) : List String :=
  (segments.map String.ofList).filter fun segment => segment ≠ "" ∧ segment ≠ "."

theorem steps_eq (path : String) : steps path = leading (segments path) := rfl

@[simp] theorem leading_append (segments others : List (List Char)) :
    leading (segments ++ others) = leading segments ++ leading others := by
  simp [leading]

theorem leading_cons {segment : String} (hempty : segment ≠ "") (hdot : segment ≠ ".")
    (others : List (List Char)) :
    leading (segment.toList :: others) = segment :: leading others := by
  simp [leading, hempty, hdot]

theorem steps_of_not_mem {segment : String} (hslash : '/' ∉ segment.toList) (hempty : segment ≠ "")
    (hdot : segment ≠ ".") : steps segment = [segment] := by
  rw [steps_eq, segments_eq, List.splitOn_eq_singleton hslash, leading_cons hempty hdot]
  rfl

theorem steps_append_slash (path rest : String) :
    steps (path ++ "/" ++ rest) = steps path ++ steps rest := by
  simp [steps_eq, segments_append_slash]

@[simp] theorem steps_empty : steps "" = [] := by
  simp [steps_eq, segments_eq, leading]

theorem steps_push (path segment : String) :
    steps (push path segment) = steps path ++ steps segment := by
  unfold push
  split
  · next h =>
      rcases Bool.or_eq_true_iff.1 h with hempty | hslash
      · have hpath : path = "" := by simpa using hempty
        simp [hpath]
      · have hlast := List.dropLast_append_getLast? '/' (of_decide_eq_true hslash)
        obtain ⟨start, hpath⟩ : ∃ start, path = start ++ "/" :=
          ⟨String.ofList path.toList.dropLast, String.toList_inj.1 (by simp [hlast])⟩
        rw [hpath, steps_append_slash, ← String.append_empty (s := start ++ "/"),
          steps_append_slash, steps_empty, List.append_nil]
  · exact steps_append_slash path segment

/-! ## Walks -/

theorem walk_append (location : Location) (steps others : List String) :
    walk location (steps ++ others) = walk (walk location steps) others := by
  induction steps generalizing location with
  | nil => rfl
  | cons step steps ih =>
      simp only [List.cons_append, walk]
      split <;> exact ih _

theorem walk_of_not_mem {steps : List String} (h : ".." ∉ steps) (location : Location) :
    walk location steps = location ++ steps := by
  induction steps generalizing location with
  | nil => simp [walk]
  | cons step steps ih =>
      obtain ⟨hstep, hsteps⟩ := not_or.1 (mt List.mem_cons.2 h)
      rw [walk, if_neg (Ne.symm hstep), ih hsteps]
      simp

theorem locate_push (path segment : String) :
    locate (push path segment) = walk (locate path) (steps segment) := by
  rw [locate, steps_push, walk_append, locate]

/-- Steps that lead to a place below wherever they start. -/
def Descends (steps : List String) : Prop :=
  ∃ rest, ∀ location, walk location steps = location ++ rest

theorem descends_of_not_mem {steps : List String} (h : ".." ∉ steps) : Descends steps :=
  ⟨steps, walk_of_not_mem h⟩

end Disk

/-! ## Names -/

namespace ClassName

def segments (name : ClassName) : List String :=
  (Disk.segments name.internal).map String.ofList

/-- Every segment of the name is a step down. -/
def IsPlain (name : ClassName) : Prop :=
  ∀ segment ∈ name.segments, segment ≠ "" ∧ segment ≠ "." ∧ segment ≠ ".."

instance decidableIsPlain (name : ClassName) : Decidable name.IsPlain :=
  inferInstanceAs (Decidable (∀ segment ∈ name.segments, _))

theorem not_mem_of_mem_segments {name : ClassName} {segment : String}
    (h : segment ∈ name.segments) : '/' ∉ segment.toList := by
  obtain ⟨piece, hpiece, rfl⟩ := List.mem_map.1 h
  rw [String.toList_ofList]
  exact not_mem_of_mem_splitOn hpiece

theorem segments_injective : Function.Injective segments := by
  intro a b h
  have hpieces : Disk.segments a.internal = Disk.segments b.internal :=
    List.map_injective_iff.2 (fun _ _ => String.ofList_injective) h
  have htext := congrArg (List.intercalate ['/']) hpieces
  rw [Disk.segments_eq, Disk.segments_eq, List.intercalate_splitOn,
    List.intercalate_splitOn] at htext
  obtain ⟨internal⟩ := a
  obtain ⟨other⟩ := b
  exact congrArg ClassName.mk (String.toList_inj.1 htext)

theorem exists_segments_eq (name : ClassName) :
    ∃ directories last, name.segments = directories ++ [last] := by
  have hsome : name.segments ≠ [] := by simp [segments, Disk.segments_eq]
  exact ⟨_, _, (List.dropLast_concat_getLast hsome).symm⟩

end ClassName

/-! ## The place of an artifact -/

theorem append_dot_ne_dots {last : String} (hempty : last ≠ "") (hdot : last ≠ ".")
    (ending : String) : last ++ "." ++ ending ≠ ".." := by
  intro h
  have htext := congrArg String.toList h
  rw [Ne, ← String.toList_inj] at hempty hdot
  simp only [String.toList_append] at htext
  rcases hlast : last.toList with _ | ⟨first, _ | ⟨second, rest⟩⟩
  · exact hempty hlast
  · rw [hlast] at htext hdot
    simp_all
  · rw [hlast] at htext
    simp at htext

namespace DirectorySink

variable {sink : DirectorySink} {name : ClassName} {directories : List String} {last : String}

def ending (sink : DirectorySink) : String :=
  String.ofList ((Disk.segments sink.extension).headD [])

/-- The steps that the extension adds behind its first slash. -/
def descent (sink : DirectorySink) : List String :=
  Disk.leading (Disk.segments sink.extension).tail

theorem pathOf_eq (hname : name.segments = directories ++ [last]) :
    sink.pathOf name =
      Disk.push (directories.foldl Disk.push sink.root) (last ++ "." ++ sink.extension) := by
  change Disk.push (name.segments.dropLast.foldl Disk.push sink.root)
    (name.segments.getLast?.getD "" ++ "." ++ sink.extension) = _
  simp [hname]

theorem steps_last (hslash : '/' ∉ last.toList) (hempty : last ≠ "") :
    Disk.steps (last ++ "." ++ sink.extension) = (last ++ "." ++ sink.ending) :: sink.descent := by
  obtain ⟨first, others, hsegments⟩ :=
    List.exists_cons_of_ne_nil (List.splitOn_ne_nil '/' sink.extension.toList)
  rw [← Disk.segments_eq] at hsegments
  have hdot : '/' ∉ (last ++ ".").toList := by simpa using hslash
  have hsegment : (last ++ ".").toList ++ first = (last ++ "." ++ sink.ending).toList := by
    simp [ending, hsegments]
  rw [Disk.steps_eq, Disk.segments_append hdot, hsegments, List.modifyHead_cons, hsegment,
    Disk.leading_cons, descent, hsegments, List.tail_cons]
  · simp
  · intro heq
    have htext := congrArg String.toList heq
    have hlast : last.toList ≠ [] := by simpa using hempty
    simp [List.append_eq_cons_iff, hlast] at htext

theorem locate_directories {segments : List String} (h : ∀ segment ∈ segments,
    '/' ∉ segment.toList ∧ segment ≠ "" ∧ segment ≠ "." ∧ segment ≠ "..") (path : String) :
    Disk.locate (segments.foldl Disk.push path) = Disk.locate path ++ segments := by
  induction segments generalizing path with
  | nil => simp
  | cons segment segments ih =>
      obtain ⟨⟨hslash, hempty, hdot, hdots⟩, hsegments⟩ := List.forall_mem_cons.1 h
      rw [List.foldl_cons, ih hsegments, Disk.locate_push, Disk.steps_of_not_mem hslash hempty hdot,
        Disk.walk_of_not_mem (by simpa using Ne.symm hdots), List.append_assoc,
        List.singleton_append]

theorem locate_pathOf (hname : name.segments = directories ++ [last]) (hplain : name.IsPlain) :
    Disk.locate (sink.pathOf name) =
      Disk.walk (Disk.locate sink.root ++ directories ++ [last ++ "." ++ sink.ending])
        sink.descent := by
  have hsegments : ∀ segment ∈ directories ++ [last],
      '/' ∉ segment.toList ∧ segment ≠ "" ∧ segment ≠ "." ∧ segment ≠ ".." := by
    rw [← hname]
    exact fun segment hsegment =>
      ⟨ClassName.not_mem_of_mem_segments hsegment, hplain segment hsegment⟩
  obtain ⟨hdirectories, hslash, hempty, hdot, -⟩ := by
    rwa [List.forall_mem_append, List.forall_mem_singleton] at hsegments
  rw [pathOf_eq hname, Disk.locate_push, steps_last hslash hempty, locate_directories hdirectories,
    Disk.walk, if_neg (append_dot_ne_dots hempty hdot _)]

theorem locate_pathOf_of_walk {rest : List String}
    (hdescends : ∀ location, Disk.walk location sink.descent = location ++ rest)
    (hname : name.segments = directories ++ [last]) (hplain : name.IsPlain) :
    Disk.locate (sink.pathOf name) =
      Disk.locate sink.root ++ (directories ++ [last ++ "." ++ sink.ending] ++ rest) := by
  rw [locate_pathOf hname hplain, hdescends]
  simp

/-- Different plain names have different files. -/
theorem injOn_locate_pathOf (hdescends : Disk.Descends sink.descent) :
    Set.InjOn (fun name => Disk.locate (sink.pathOf name)) {name | name.IsPlain} := by
  intro a ha b hb h
  obtain ⟨rest, hrest⟩ := hdescends
  obtain ⟨directories, last, haname⟩ := a.exists_segments_eq
  obtain ⟨others, final, hbname⟩ := b.exists_segments_eq
  simp only [locate_pathOf_of_walk hrest haname ha, locate_pathOf_of_walk hrest hbname hb,
    List.append_cancel_left_eq, List.append_cancel_right_eq] at h
  obtain ⟨hdirectories, hlast⟩ := List.append_inj' h rfl
  have hlast : last = final := by
    simpa [← String.toList_inj, String.toList_append] using hlast
  exact ClassName.segments_injective (by rw [haname, hbname, hdirectories, hlast])

theorem locate_root_prefix_locate_pathOf (hdescends : Disk.Descends sink.descent)
    (hplain : name.IsPlain) : Disk.locate sink.root <+: Disk.locate (sink.pathOf name) := by
  obtain ⟨rest, hrest⟩ := hdescends
  obtain ⟨directories, last, hname⟩ := name.exists_segments_eq
  rw [locate_pathOf_of_walk hrest hname hplain]
  exact List.prefix_append ..

end DirectorySink

end InjectionCompiler
