import InjectionCompiler.ClassName
import InjectionCompiler.Table

/-!
# Arenas

An arena holds each entity once, under the class that declares it.  Other entities refer to it by
an id, which is its place in the order of first insertion and never changes.
-/

namespace InjectionCompiler

inductive Entity where
  | module
  | contract
  | factory
  deriving DecidableEq, Repr

structure Id (entity : Entity) where
  index : Nat
  deriving DecidableEq, Repr

namespace Id

variable {entity : Entity}

def display (id : Id entity) : String :=
  "Id(" ++ toString id.index ++ ")"

instance : Ord (Id entity) := ⟨fun a b => compare a.index b.index⟩

end Id

structure Arena (entity : Entity) (α : Type) where
  table : Table ClassName α
  deriving DecidableEq, Repr

namespace Arena

variable {entity : Entity} {α : Type}

instance : EmptyCollection (Arena entity α) := ⟨⟨∅⟩⟩

instance : Inhabited (Arena entity α) := ⟨∅⟩

def size (arena : Arena entity α) : Nat :=
  arena.table.size

def isEmpty (arena : Arena entity α) : Bool :=
  arena.size = 0

def find? (arena : Arena entity α) (name : ClassName) : Option (Id entity) :=
  (arena.table.position? name).map Id.mk

def named? (arena : Arena entity α) (name : ClassName) : Option α :=
  arena.table.find? name

def get? (arena : Arena entity α) (id : Id entity) : Option α :=
  arena.table.values[id.index]?

def nameOf? (arena : Arena entity α) (id : Id entity) : Option ClassName :=
  arena.table.keys[id.index]?

/-- Stores an entity and answers its id.  An entity stored under the same name before is
replaced, and the id stays the same. -/
def insert (arena : Arena entity α) (name : ClassName) (item : α) : Id entity × Arena entity α :=
  let table := arena.table.insert name item
  (⟨(table.position? name).getD table.size⟩, ⟨table⟩)

/-- Changes the entity behind an id; an id that is out of range changes nothing. -/
def modify (arena : Arena entity α) (id : Id entity) (change : α → α) : Arena entity α :=
  ⟨arena.table.modifyAt id.index change⟩

def items (arena : Arena entity α) : List α :=
  arena.table.values

def names (arena : Arena entity α) : List ClassName :=
  arena.table.keys

def ids (arena : Arena entity α) : List (Id entity) :=
  (List.range arena.size).map Id.mk

def entries (arena : Arena entity α) : List (Id entity × α) :=
  arena.ids.zip arena.items

end Arena

end InjectionCompiler
