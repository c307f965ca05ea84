import InjectionCompiler.ClassDecl
import InjectionCompiler.Search
import InjectionCompiler.Table
import InjectionCompiler.Vocabulary

/-!
# The class path

All classes that a run knows.  A class either belongs to the current input or was compiled before.
Registering a name again replaces the class and its standing, and keeps its place.
-/

namespace InjectionCompiler

structure ClassEntry where
  decl : ClassDecl
  isInput : Bool
  deriving DecidableEq, Repr

structure ClassPath where
  table : Table ClassName ClassEntry
  named : ∀ entry ∈ table.entries, entry.2.decl.name = entry.1

namespace ClassPath

def empty : ClassPath := ⟨∅, by intro entry h; cases h⟩

instance : EmptyCollection ClassPath := ⟨empty⟩

instance : Inhabited ClassPath := ⟨empty⟩

theorem named_putEntries (entry : ClassEntry) {entries : List (ClassName × ClassEntry)}
    (h : ∀ held ∈ entries, held.2.decl.name = held.1) :
    ∀ held ∈ Table.putEntries entry.decl.name entry (fun _ => entry) entries,
      held.2.decl.name = held.1 := by
  induction entries with
  | nil => simp [Table.putEntries]
  | cons first rest ih =>
      obtain ⟨name, old⟩ := first
      have hrest := ih fun held hheld => h held (List.mem_cons_of_mem _ hheld)
      intro held hheld
      simp only [Table.putEntries] at hheld
      split at hheld
      · next heq =>
          rcases List.mem_cons.1 hheld with rfl | hmem
          · exact heq.symm
          · exact h held (List.mem_cons_of_mem _ hmem)
      · rcases List.mem_cons.1 hheld with rfl | hmem
        · exact h _ (List.mem_cons_self ..)
        · exact hrest held hmem

def register (path : ClassPath) (entry : ClassEntry) : ClassPath :=
  ⟨path.table.insert entry.decl.name entry, named_putEntries entry path.named⟩

def addInput (path : ClassPath) (decl : ClassDecl) : ClassPath :=
  path.register ⟨decl, true⟩

def addCompiled (path : ClassPath) (decl : ClassDecl) : ClassPath :=
  path.register ⟨decl, false⟩

/-! ## Look-up -/

def size (path : ClassPath) : Nat :=
  path.table.size

def isEmpty (path : ClassPath) : Bool :=
  path.size = 0

def find? (path : ClassPath) (name : ClassName) : Option ClassDecl :=
  (path.table.find? name).map ClassEntry.decl

def contains (path : ClassPath) (name : ClassName) : Bool :=
  path.table.contains name

def isInput (path : ClassPath) (name : ClassName) : Bool :=
  (path.table.find? name).any ClassEntry.isInput

/-- All names in the order of their first registration. -/
def registered (path : ClassPath) : List ClassName :=
  path.table.keys

/-- All names, those of the current input first, each group in the order of first registration. -/
def names (path : ClassPath) : List ClassName :=
  path.registered.filter path.isInput ++ path.registered.filter (!path.isInput ·)

def decls (path : ClassPath) : List ClassDecl :=
  path.names.filterMap path.find?

theorem name_of_find? {path : ClassPath} {name : ClassName} {decl : ClassDecl}
    (h : path.find? name = some decl) : decl.name = name := by
  obtain ⟨entry, hentry, rfl⟩ := Option.map_eq_some_iff.1 h
  exact path.named _ (Table.mem_entries_of_find? hentry)

theorem mem_registered_of_find? {path : ClassPath} {name : ClassName} {decl : ClassDecl}
    (h : path.find? name = some decl) : name ∈ path.registered := by
  obtain ⟨entry, hentry, rfl⟩ := Option.map_eq_some_iff.1 h
  exact Table.mem_keys_of_find? hentry

/-- Whether a known class bears an annotation of the given type. -/
def bears (path : ClassPath) (name type : ClassName) : Bool :=
  (path.find? name).any (·.isAnnotated type)

/-! ## Ancestry -/

def parents (path : ClassPath) (name : ClassName) : List ClassName :=
  match path.find? name with
  | some decl => decl.parents
  | none => []

def allParents (path : ClassPath) : List ClassName :=
  path.table.values.flatMap fun entry => entry.decl.parents

theorem mem_allParents {path : ClassPath} {name parent : ClassName}
    (h : parent ∈ path.parents name) : parent ∈ path.allParents := by
  unfold parents at h
  split at h
  · next decl hdecl =>
      obtain ⟨entry, hentry, rfl⟩ := Option.map_eq_some_iff.1 hdecl
      exact List.mem_flatMap.2
        ⟨entry, List.mem_map.2 ⟨_, Table.mem_entries_of_find? hentry, rfl⟩, h⟩
  · cases h

def hierarchy (path : ClassPath) : SearchSpace ClassName where
  next := path.parents
  bound := path.allParents
  closed := mem_allParents

/-- The classes and interfaces above a class, nearest first, and above equals the super class
before the interfaces.  Unknown ancestors are listed, and nothing above them. -/
def ancestors (path : ClassPath) (name : ClassName) : List ClassName :=
  path.hierarchy.descend name

end ClassPath

end InjectionCompiler
